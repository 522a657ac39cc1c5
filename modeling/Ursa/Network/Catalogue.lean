/-
# Network.Catalogue — what is advertised can be had

Advertisements are read by indexers long after they were published, and stay readable.  The
blocks they name are asked for even later.  Meanwhile bitswap and uploads write blocks, more
roots are queued, and the queue is published again and again.

The invariant is the catalogue (`Catalogued`): as long as the loop runs, the advertisements
that were published are, in order, those of the first roots that were enqueued, and the node
holds the DAG of each of them, block for block what its entries name (`Offers`).  The
announcement of each was attempted once, in the same order, if there is an address to announce:
gossip was given the message, and where it refused it, the indexer was sent it by HTTP, whatever
came of that.
-/
import Ursa.Network.Queue
import Ursa.Store.Sync

namespace Ursa.Network

set_option autoImplicit false

open Ursa.Theory (Outcome)
open Ursa.Theory.Run
open Ursa.Theory.LinkedChain
open Ursa.IndexProvider

/-- Blocks that are written are what their CIDs stand for: uploads and bitswap check it. -/
def Input.Genuine (is : Cid → Bytes → Prop) : Input → Prop
  | .insert cid data => is cid data
  | _ => True

namespace UrsaService

variable {K : Type} {deps : Deps K} {B : Blocks} {is : Cid → Bytes → Prop} {s t : UrsaService K}
  {input : Input}

/-! ## What a step writes, sends and answers -/

/-- No block is written, nothing enqueued, published or announced. -/
structure Still (s t : UrsaService K) : Prop where
  peerId : t.peerId = s.peerId
  store : t.store = s.store
  shared : t.shared = s.shared
  enqueued : t.history.enqueued = s.history.enqueued
  indexed : t.history.indexed = s.history.indexed
  announced : t.history.announced = s.history.announced

/-- Handling an event other than `StartPublish`. -/
theorem still_onEvent {env : DeliverEnv} {event : BehaviourEvent}
    (other : ∀ address, event ≠ .startPublish address)
    (handled : onEvent deps B s env event = some t) : Still s t := by
  cases event with
  | startPublish address => exact absurd rfl (other address)
  | bitswap info =>
      obtain ⟨_, _, _, rfl⟩ := onBitswap_frame handled
      exact ⟨rfl, rfl, rfl, rfl, rfl, rfl⟩
  | natStatusChanged old new =>
      cases handled
      rcases onNatStatusChanged_cases s env old new with ⟨_, -, same⟩ | ⟨-, _, _, same⟩
      · rw [same]
        exact ⟨rfl, rfl, rfl, rfl, rfl, rfl⟩
      · rw [same]
        exact ⟨rfl, rfl, rfl, rfl, rfl, rfl⟩
  | gossipMessage peer topic message =>
      cases handled
      split <;> exact ⟨rfl, rfl, rfl, rfl, rfl, rfl⟩
  | _ =>
      cases handled
      exact ⟨rfl, rfl, rfl, rfl, rfl, rfl⟩

/-- **What a step does for the outside**: nothing, unless it writes a block, takes an `Index`
command or publishes the queue. -/
theorem step_outputs (taken : s.step deps B input = some t) :
    Still s t ∨
    (∃ cid data, input = .insert cid data ∧ t = { s with store := s.store.put cid data }) ∨
    (∃ root cids sender id, input = .command (.index (root :: cids) sender) id ∧
      ∃ behaviour, t = { s with
        shared := { s.shared with rootCids := s.shared.rootCids ++ [root] }
        behaviour
        history := { s.history with
          enqueued := s.history.enqueued ++ [root]
          indexed := s.history.indexed ++ [(sender, root :: cids)] } }) ∨
    (∃ env address later, input = .deliver env ∧
      s.behaviour.events = .startPublish address :: later ∧
      onStartPublish deps B { s with behaviour := { s.behaviour with events := later } } env
        address = some t) := by
  cases turn_of_step taken with
  | command command id =>
      cases command with
      | getBitswap cid query sender =>
          left
          simp only [onCommand]
          split <;> exact ⟨rfl, rfl, rfl, rfl, rfl, rfl⟩
      | index cids sender =>
          cases cids with
          | nil => exact .inl ⟨rfl, rfl, rfl, rfl, rfl, rfl⟩
          | cons root cids =>
              exact .inr (.inr (.inl ⟨root, cids, sender, id, rfl, _, rfl⟩))
      | _ => exact .inl ⟨rfl, rfl, rfl, rfl, rfl, rfl⟩
  | deliver env event later _ first handled =>
      by_cases publishes : ∃ address, event = .startPublish address
      · obtain ⟨address, rfl⟩ := publishes
        exact .inr (.inr (.inr ⟨env, address, later, rfl, first, handled⟩))
      · have still := still_onEvent (fun address same => publishes ⟨address, same⟩) handled
        exact .inl ⟨still.peerId, still.store, still.shared, still.enqueued, still.indexed,
          still.announced⟩
  | insert cid data => exact .inr (.inl ⟨cid, data, rfl, rfl⟩)
  | _ => exact .inl ⟨rfl, rfl, rfl, rfl, rfl, rfl⟩

end UrsaService

/-! ## What every operation of the provider keeps -/

/-- A relation between earlier and later states of the provider that every operation leads
along, whether it succeeds or not. -/
structure Along {K : Type} (deps : Deps K) (p : Provider K) (R : Shared → Shared → Prop) :
    Prop where
  refl : ∀ s, R s s
  trans : ∀ s t u, R s t → R t u → R s u
  queue : ∀ s rootCids, R s { s with rootCids }
  create : ∀ ad id s, R s (create ad id s).2
  addChunk : ∀ fault bytes id s, R s (addChunk deps fault bytes id s).2
  publish : ∀ faults id s, R s (publish deps p faults id s).2

namespace Along

variable {K : Type} {deps : Deps K} {B : Blocks} {p : Provider K} {peerId : PeerId}
  {R : Shared → Shared → Prop}

/-- A chain of calls leads along, also where it ends early. -/
theorem andThen (along : Along deps p R) {ε α β : Type} {s : Shared} {r : Outcome ε α × Shared}
    {next : α → Shared → Outcome ε β × Shared} (first : R s r.2)
    (later : ∀ a t, R t (next a t).2) : R s (Outcome.andThen r next).2 := by
  obtain ⟨o, t⟩ := r
  cases o with
  | ok a => exact along.trans _ _ _ first (later a t)
  | _ => exact first

theorem addChunks (along : Along deps p R) (env : RootEnv) (id : Nat) (cs : List (List Ipld))
    (k : Nat) (s : Shared) : R s (addChunks deps env id k cs s).2 := by
  induction cs generalizing k s with
  | nil => exact along.refl s
  | cons chunk rest ih =>
      simp only [Network.addChunks]
      split
      · exact along.refl s
      · rename_i bytes _
        exact along.andThen (along.addChunk (env.chunkFault k) bytes id s) fun _ t => ih (k + 1) t

theorem publishRoot (along : Along deps p R) (peerId : PeerId) (store : Store) (address : Multiaddr)
    (env : RootEnv) (root : Cid) (s : Shared) : R s (publishRoot deps B p peerId store address env root s).2 := by
  refine along.andThen (along.create _ env.id s) ?_
  intro id t
  cases dagTraversalOn B env.readFault env.order store (convertCid root.toBytes) with
  | ok dag =>
      refine along.andThen (along.addChunks env id _ 0 t) ?_
      intro _ u
      exact along.andThen (along.publish env.publishFaults id u) fun _ v => along.refl v
  | _ => exact along.refl t

/-- A queue that is published, to its end or not. -/
theorem publishQueue (along : Along deps p R) (peerId : PeerId) (store : Store)
    (address : Multiaddr) (env : Nat → RootEnv) (roots : List Cid) (n : Nat) (s : Shared)
    (sent : List Announcement) :
    R s (publishQueue deps B p peerId store address env n roots s sent).2.1 := by
  induction roots generalizing n s sent with
  | nil => exact along.refl s
  | cons root rest ih =>
      have one := along.trans _ _ _ (along.queue s rest)
        (along.publishRoot (B := B) peerId store address (env n) root
          { s with rootCids := rest })
      simp only [Network.publishQueue]
      rcases published : Network.publishRoot deps B p peerId store address (env n) root
        { s with rootCids := rest } with ⟨o, t⟩
      rw [published] at one
      cases o with
      | ok a => exact along.trans _ _ _ one (ih (n + 1) t _)
      | _ => exact one

/-- A turn of the loop, also one that ends it. -/
theorem step {s t : UrsaService K} {input : Input} (along : Along deps s.indexProvider R)
    (taken : s.step deps B input = some t) : R s.shared t.shared := by
  rcases UrsaService.step_outputs taken with still | ⟨_, _, -, rfl⟩ |
    ⟨root, _, _, _, -, _, rfl⟩ | ⟨env, address, later, -, -, published⟩
  · rw [still.shared]
    exact along.refl _
  · exact along.refl _
  · exact along.queue s.shared (s.shared.rootCids ++ [root])
  · have queue := along.publishQueue (B := B) s.peerId s.store
      (advertisedAddress address) env.roots s.shared.rootCids 0 s.shared s.history.announced
    simp only [UrsaService.onStartPublish] at published
    split at published <;> cases published <;> exact queue

end Along

/-! ## Offers -/

section Offers

variable {K : Type} {deps : Deps K} {B : Blocks}

/-- The advertisement `e` offers the DAG under `root`: its entries are the multihashes of the
DAG's blocks, and the node has all of them. -/
structure Offers (deps : Deps K) (B : Blocks) (store : Store) (blockstore : Cid → Option Ipld)
    (e : Cid × Advertisement) (root : Cid) : Prop where
  stored : blockstore e.1 = some e.2.toIpld
  context : e.2.contextID = contextOf root
  complete : Complete B store root
  entries : ∃ dag chunks, DagOf B store root dag ∧
    EntryChain deps blockstore (e.2.entries.bind Ipld.asLink) chunks ∧
    (chunks.reverse.map fun c => c.2.entries).flatten = dagEntries deps dag

theorem Offers.of_advertises {store : Store} {order : Nat → List Cid → Nat} {root : Cid}
    {blockstore : Cid → Option Ipld} {e : Cid × Advertisement}
    (advertises : Advertises deps B store order root blockstore e) :
    Offers deps B store blockstore e root := by
  obtain ⟨dag, chunks, traversed, dagOf, chain, listed, -⟩ := advertises.entries
  exact ⟨advertises.stored, advertises.context, (dagTraversal_dagOf traversed).1,
    dag, chunks, dagOf, chain, listed⟩

/-- Further blocks, in the store or in the provider's blockstore, do an offer no harm. -/
theorem Offers.keep {store store' : Store} {blockstore blockstore' : Cid → Option Ipld}
    {e : Cid × Advertisement} {root : Cid} (offers : Offers deps B store blockstore e root)
    (addressed : deps.objCid e.2.toIpld = some e.1)
    (kept : ∀ cid data, store.get cid = some data → store'.get cid = some data)
    (keeps : Keeps deps.objCid blockstore blockstore') :
    Offers deps B store' blockstore' e root := by
  have agree : ∀ cid, Reach B store root cid → store'.get cid = store.get cid := by
    intro cid reach
    obtain ⟨data, refs, found, -⟩ := offers.complete cid reach
    rw [found]
    exact kept cid data found
  obtain ⟨dag, chunks, dagOf, chain, listed⟩ := offers.entries
  refine ⟨keeps _ _ addressed offers.stored, offers.context, offers.complete.of_agree agree,
    dag, chunks, ?_, chain.keep keeps, listed⟩
  have back : ∀ cid, Reach B store' root cid → store.get cid = store'.get cid := by
    intro cid reach
    exact (agree cid ((reach_of_agree agree cid).mp reach)).symm
  exact dagOf.of_agree back

theorem offers_keep {store store' : Store} {blockstore blockstore' : Cid → Option Ipld}
    {ads : List (Cid × Advertisement)} {roots : List Cid}
    (offers : List.Forall₂ (Offers deps B store blockstore) ads roots)
    (addressed : ∀ e ∈ ads, deps.objCid e.2.toIpld = some e.1)
    (kept : ∀ cid data, store.get cid = some data → store'.get cid = some data)
    (keeps : Keeps deps.objCid blockstore blockstore') :
    List.Forall₂ (Offers deps B store' blockstore') ads roots := by
  induction offers with
  | nil => exact .nil
  | cons first _ ih =>
      obtain ⟨own, others⟩ := List.forall_mem_cons.mp addressed
      exact .cons (first.keep own kept keeps) (ih others)

end Offers

namespace UrsaService

variable {K : Type} {deps : Deps K} {B : Blocks} {is : Cid → Bytes → Prop} {s t : UrsaService K}
  {input : Input}

/-! ## The catalogue -/

structure Catalogued (deps : Deps K) (B : Blocks) (is : Cid → Bytes → Prop) (s : UrsaService K) :
    Prop where
  clean : Clean is s.store
  /-- What was published offers the first roots that were enqueued, in order. -/
  offers : ∃ roots, s.history.enqueued = roots ++ s.shared.rootCids ∧
    List.Forall₂ (Offers deps B s.store s.shared.blockstore) s.shared.published.reverse roots
  announced : s.history.announced.map Announcement.message =
    s.shared.published.reverse.filterMap fun e => announcementOf deps s.indexProvider s.peerId e.1

theorem catalogued_new (peerId : PeerId) (config : NetworkConfig) {store : Store}
    (indexProvider : Provider K) (blockstore : Cid → Option Ipld) (clean : Clean is store) :
    Catalogued deps B is (new peerId config store indexProvider blockstore) :=
  ⟨clean, ⟨[], rfl, .nil⟩, rfl⟩

theorem Indexed.addressed (indexed : Indexed deps s) :
    ∀ e ∈ s.shared.published.reverse, deps.objCid e.2.toIpld = some e.1 :=
  fun e member => indexed.chain.addressed e (List.mem_reverse.mp member)

/-- A loop that goes on has published the whole queue. -/
theorem publishesAll_of_running {env : DeliverEnv} {address : Multiaddr}
    (taken : onStartPublish deps B s env address = some t) (running : t.status = .running)
    (lawful : Lawful deps s.indexProvider.keypair) (indexed : Indexed deps s) :
    ∃ ads sent, t.history.announced = s.history.announced ++ sent ∧
      PublishesAll deps B s.indexProvider s.peerId s.store (fun i => (env.roots i).order)
        s.shared.rootCids s.shared t.shared ads sent := by
  have ready : ∀ i root, s.shared.rootCids[i]? = some root →
      RootReady deps B s.indexProvider s.peerId s.store (env.roots i) root := by
    have ended := taken
    simp only [onStartPublish] at ended
    split at ended
    · rename_i published
      simpa only [Nat.zero_add] using publishQueue_ready (Prod.ext published rfl)
    · cases ended
      cases running
    · cases ended
      cases running
    · cases ended
  obtain ⟨t', ads, sent, published, -, announced, -, all⟩ :=
    onStartPublish_ok lawful indexed address ready
  obtain rfl := Option.some.inj (published.symm.trans taken)
  exact ⟨ads, sent, announced, all⟩

theorem Catalogued.still (catalogued : Catalogued deps B is s) (still : Still s t)
    (own : t.indexProvider = s.indexProvider) : Catalogued deps B is t where
  clean := by
    rw [still.store]
    exact catalogued.clean
  offers := by
    rw [still.store, still.shared, still.enqueued]
    exact catalogued.offers
  announced := by
    rw [still.announced, still.shared, own, still.peerId]
    exact catalogued.announced

/-- Publishing the queue adds an offer for each queued root. -/
theorem Catalogued.publish (catalogued : Catalogued deps B is s) (indexed : Indexed deps s)
    {order : Nat → Nat → List Cid → Nat} {shared : Shared} {status : Status}
    {ads : List (Cid × Advertisement)} {sent : List Announcement}
    (all : PublishesAll deps B s.indexProvider s.peerId s.store order s.shared.rootCids s.shared
      shared ads sent) (behaviour : Behaviour) :
    Catalogued deps B is { s with
      shared, status, behaviour
      history := { s.history with announced := s.history.announced ++ sent } } where
  clean := catalogued.clean
  offers := by
    obtain ⟨roots, enqueued, offers⟩ := catalogued.offers
    have added : List.Forall₂ (Offers deps B s.store shared.blockstore) ads s.shared.rootCids := by
      rw [List.forall₂_iff_get]
      refine ⟨all.count, ?_⟩
      intro i _ bound
      obtain ⟨e, listed, advertises⟩ := all.advertises i _ (List.getElem?_eq_getElem bound)
      obtain ⟨inside, rfl⟩ := List.getElem?_eq_some_iff.mp listed
      exact .of_advertises advertises
    refine ⟨roots ++ s.shared.rootCids, ?_, ?_⟩
    · simp only [all.rootCids, List.append_nil, enqueued]
    · simp only [all.published, List.reverse_append, List.reverse_reverse]
      exact List.rel_append (offers_keep offers indexed.addressed (fun _ _ => id) all.keeps) added
  announced := by
    simp only [List.map_append, catalogued.announced, all.announced, all.published,
      List.reverse_append, List.reverse_reverse, List.filterMap_append]

theorem Catalogued.step (catalogued : Catalogued deps B is s) (single : Single is)
    (lawful : Lawful deps s.indexProvider.keypair) (indexed : Indexed deps s)
    (genuine : input.Genuine is) (taken : s.step deps B input = some t)
    (running : t.status = .running) : Catalogued deps B is t := by
  rcases step_outputs taken with still | ⟨cid, data, rfl, rfl⟩ |
    ⟨root, cids, sender, id, rfl, behaviour, rfl⟩ | ⟨env, address, later, rfl, -, published⟩
  · exact catalogued.still still (step_indexProvider taken)
  · obtain ⟨roots, enqueued, offers⟩ := catalogued.offers
    have own : is (cid, data).1 (cid, data).2 := genuine
    refine ⟨catalogued.clean.put own, ⟨roots, enqueued, ?_⟩, catalogued.announced⟩
    exact offers_keep offers indexed.addressed (fun _ _ => catalogued.clean.kept single own) .refl
  · obtain ⟨roots, enqueued, offers⟩ := catalogued.offers
    refine ⟨catalogued.clean, ⟨roots, ?_, offers⟩, catalogued.announced⟩
    simp only [enqueued, List.append_assoc]
  · obtain ⟨ads, sent, announced, all⟩ :=
      publishesAll_of_running published running lawful ⟨indexed.chain, indexed.idle⟩
    obtain ⟨status, shared, announced', rfl⟩ := onStartPublish_frame published
    cases announced
    exact catalogued.publish indexed all _

/-- **What is advertised can be had.**  In every run of the loop, as long as it runs: the
advertisements that can be reached from the head offer, oldest first, the DAGs of the roots
that were enqueued first, all but those still queued; for each of them the node has every
block that the entries name and no entry is missing; and the announcement of each was attempted
once, in order, if there is an address to announce. -/
theorem everything_advertised_is_available (deps : Deps K) (B : Blocks) (peerId : PeerId)
    (config : NetworkConfig) (store : Store) (indexProvider : Provider K)
    (blockstore : Cid → Option Ipld) (lawful : Lawful deps indexProvider.keypair)
    (is : Cid → Bytes → Prop) (single : Single is) (clean : Clean is store) (inputs : List Input)
    (genuine : ∀ input ∈ inputs, input.Genuine is) (s : UrsaService K)
    (run : exec (step deps B) (new peerId config store indexProvider blockstore) inputs = some s)
    (running : s.status = .running) :
    Walk (Ipld.linkAt "PreviousID") s.shared.blockstore s.shared.head s.shared.ads ∧
    (∃ roots, enqueuedRoots inputs = roots ++ s.shared.rootCids ∧
      List.Forall₂ (Offers deps B s.store s.shared.blockstore) s.shared.published.reverse roots) ∧
    s.history.announced.map Announcement.message =
      s.shared.published.reverse.filterMap fun e =>
        announcementOf deps s.indexProvider s.peerId e.1 := by
  have enqueued : s.history.enqueued = enqueuedRoots inputs :=
    exec_log (fun _ _ _ taken => step_enqueued taken) run
  have kept : s.indexProvider = indexProvider ∧
      (s.status = .running → Indexed deps s ∧ Catalogued deps B is s) := by
    refine exec_invariant
      (I := fun s : UrsaService K => s.indexProvider = indexProvider ∧
        (s.status = .running → Indexed deps s ∧ Catalogued deps B is s)) ?_
      ⟨rfl, fun _ => ⟨indexed_new _ _ _ _ _, catalogued_new _ _ _ _ clean⟩⟩
      (meets_of_forall (fun input member _ => genuine input member) _) run
    rintro s input t ⟨own, kept⟩ genuine taken
    refine ⟨(step_indexProvider taken).trans own, ?_⟩
    intro running
    obtain ⟨indexed, catalogued⟩ := kept (running_of_step taken)
    exact ⟨indexed.step lawful.collisionFree taken running,
      catalogued.step single (own ▸ lawful) indexed genuine taken running⟩
  obtain ⟨indexed, catalogued⟩ := kept.2 running
  rw [← enqueued]
  exact ⟨indexed.chain.chain, catalogued.offers, catalogued.announced⟩

/-- A DAG is uploaded and published; then a block of it is uploaded and published on its own. -/
def twoUploads : List Input :=
  sampleUpload ++ [.deliver quietEnv, .insert sampleLeaf.1 sampleLeaf.2,
    .command (.index [sampleLeaf.1] 2) 0, .deliver quietEnv]

theorem everything_advertised_is_available_sample :
    ∃ s, exec (step plainDeps plainBlocks) (sampleService sampleStore) twoUploads = some s ∧
      s.shared.published.length = 2 ∧
      List.Forall₂ (Offers plainDeps plainBlocks s.store s.shared.blockstore)
        s.shared.published.reverse [sampleRoot.1, sampleLeaf.1] := by
  have evaluated : (exec (step plainDeps plainBlocks) (sampleService sampleStore) twoUploads).map
      (fun s => (s.status, s.shared.published.length, s.shared.rootCids)) =
        some (.running, 2, []) := by decide +kernel
  obtain ⟨s, run, facts⟩ := Option.map_eq_some_iff.mp evaluated
  simp only [Prod.mk.injEq] at facts
  obtain ⟨running, count, queue⟩ := facts
  have single : Single fun cid data => sampleStore.get cid = some data :=
    fun _ _ _ is is' => Option.some.inj (is.symm.trans is')
  have genuine : ∀ input ∈ twoUploads,
      input.Genuine fun cid data => sampleStore.get cid = some data := by
    intro input member
    simp only [twoUploads, sampleUpload, List.cons_append, List.nil_append, List.mem_cons,
      List.not_mem_nil, or_false] at member
    rcases member with rfl | rfl | rfl | rfl | rfl | rfl | rfl
    case inr.inr.inr.inr.inl =>
      show sampleStore.get sampleLeaf.1 = some sampleLeaf.2
      decide +kernel
    all_goals trivial
  obtain ⟨-, ⟨roots, enqueued, offers⟩, -⟩ := everything_advertised_is_available plainDeps
    plainBlocks _ _ _ _ _ plainDeps_lawful _ single (fun _ _ => id) twoUploads genuine s run running
  rw [queue, List.append_nil] at enqueued
  refine ⟨s, run, count, ?_⟩
  rw [← enqueued] at offers
  exact offers

end UrsaService

end Ursa.Network

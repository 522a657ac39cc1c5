/-
# Network.Queue — no queued root is lost, repeated or stranded

Roots enter the index provider's queue by `Index` commands and leave it when a
`StartPublish` event is handled.  Such an event is raised in two places: by an `Index`
command that finds a public address, and by a NAT status that became public.  Between
the upload and the event that drains the queue the address may appear, change or vanish.

* What was published so far, followed by what is queued, is what was enqueued, in order
  (`Ledger`).  A publish that fails, or an announcement that panics, would break this, and
  it ends the loop.
* While something is queued and an address is known, an event that starts publishing is
  waiting (`Alert`).
-/
import Ursa.Network.Indexing

namespace Ursa.Network

set_option autoImplicit false

open Ursa.Theory (Outcome)
open Ursa.Theory.Run
open Ursa.IndexProvider

/-! ## Publishing a queue, call by call -/

section Succeeds

variable {K : Type} (deps : Deps K) (B : Blocks) (p : Provider K) (peerId : PeerId)

/-- The calls for every root of a queue succeed, one after the other. -/
def QueueSucceeds (store : Store) (address : Multiaddr) (env : Nat → RootEnv) :
    Nat → List Cid → Shared → Prop
  | _, [], _ => True
  | n, root :: rest, s =>
      ∃ s', RootSucceeds deps B p peerId store address (env n) root { s with rootCids := rest } s' ∧
        QueueSucceeds store address env (n + 1) rest s'

variable {deps B p peerId} {store : Store} {address : Multiaddr} {root : Cid} {s s' : Shared}

/-- The body of the loop returns exactly when these calls do. -/
theorem publishRoot_ok_iff {env : RootEnv} :
    (∃ a, publishRoot deps B p peerId store address env root s = (.ok a, s')) ↔
      RootSucceeds deps B p peerId store address env root s s' := by
  constructor
  · rintro ⟨a, ok⟩
    exact .of_ok ok
  · rintro ⟨dag, s₁, traversed, added, published, can⟩
    obtain ⟨ad, cid, publishes⟩ := publishes_of_ok (congrArg Prod.fst published)
    have result := published.symm.trans publishes.result
    obtain rfl : s' = afterPublish env.id s₁ ad cid := (Prod.mk.inj result).2
    obtain ⟨a, announced, -⟩ : ∃ a, announce deps p peerId env (afterPublish env.id s₁ ad cid) =
        .ok a ∧ a.map Announcement.message = announcementOf deps p peerId cid :=
      announce_of_head rfl can
    exact ⟨a, publishRoot_eq traversed added published announced⟩

/-- So does the loop over the queue. -/
theorem publishQueue_ok_iff {env : Nat → RootEnv} (roots : List Cid) (n : Nat) (s : Shared)
    (sent : List Announcement) :
    (publishQueue deps B p peerId store address env n roots s sent).1 = .ok () ↔
      QueueSucceeds deps B p peerId store address env n roots s := by
  induction roots generalizing n s sent with
  | nil => simp [publishQueue, QueueSucceeds]
  | cons root rest ih =>
      constructor
      · intro ok
        simp only [publishQueue] at ok
        split at ok
        · rename_i a s₁ published
          exact ⟨s₁, publishRoot_ok_iff.mp ⟨a, published⟩, (ih _ _ _).mp ok⟩
        all_goals cases ok
      · rintro ⟨s₁, succeeds, later⟩
        obtain ⟨a, published⟩ := publishRoot_ok_iff.mpr succeeds
        simp only [publishQueue, published]
        exact (ih _ _ _).mpr later

/-! ## What publishing adds -/

/-- The context under which a root is advertised. -/
def contextOf (root : Cid) : Ipld := .bytes root.toBytes

/-- The contexts of what was published, oldest first. -/
def publishedContexts (s : Shared) : List Ipld := s.published.reverse.map fun e => e.2.contextID

/-- Adding chunks changes the blockstore and the advertisement's own link. -/
theorem addChunks_frame {env : RootEnv} {id : Nat} {cs : List (List Ipld)} {k : Nat}
    {ad : Advertisement} (pending : s.tempAds id = some ad)
    (ok : addChunks deps env id k cs s = (.ok (), s')) :
    s'.published = s.published ∧ s'.rootCids = s.rootCids ∧ s'.head = s.head ∧
      ∃ entries, s'.tempAds id = some { ad with entries } := by
  induction cs generalizing k s ad with
  | nil =>
      cases ok
      exact ⟨rfl, rfl, rfl, ad.entries, pending⟩
  | cons chunk rest ih =>
      obtain ⟨ad', cid, blockstore, found, -, ok⟩ := addChunks_cons_ok ok
      cases pending.symm.trans found
      obtain ⟨published, queue, head, entries, filled⟩ := ih (Function.update_self ..) ok
      exact ⟨published, queue, head, entries, filled⟩

/-- A published root is one more advertisement, under the root's own context. -/
theorem RootSucceeds.published {env : RootEnv}
    (succeeds : RootSucceeds deps B p peerId store address env root s s') :
    publishedContexts s' = publishedContexts s ++ [contextOf root] ∧ s'.rootCids = s.rootCids := by
  obtain ⟨dag, s₁, -, added, published, -⟩ := succeeds
  obtain ⟨kept, queue, -, entries, filled⟩ := addChunks_frame (Function.update_self ..) added
  obtain ⟨ad, cid, publishes⟩ := publishes_of_ok (congrArg Prod.fst published)
  have result := published.symm.trans publishes.result
  obtain rfl : s' = afterPublish env.id s₁ ad cid := (Prod.mk.inj result).2
  obtain ⟨pending, found, sealing⟩ := publishes.sealed
  obtain ⟨sig, rfl⟩ := Advertisement.seal_eq sealing
  cases filled.symm.trans found
  refine ⟨?_, queue⟩
  simp only [publishedContexts, afterPublish, kept, List.reverse_cons, List.map_append,
    List.map_cons, List.map_nil]
  rfl

/-- A queue that is published leaves an advertisement for each root, in order, and is
empty afterwards. -/
theorem publishQueue_published {env : Nat → RootEnv} {roots : List Cid} {n : Nat}
    {sent sent' : List Announcement} (queue : s.rootCids = roots)
    (ok : publishQueue deps B p peerId store address env n roots s sent = (.ok (), s', sent')) :
    publishedContexts s' = publishedContexts s ++ roots.map contextOf ∧ s'.rootCids = [] := by
  induction roots generalizing n s sent with
  | nil =>
      cases ok
      exact ⟨by simp, queue⟩
  | cons root rest ih =>
      simp only [publishQueue] at ok
      split at ok
      · rename_i a s₁ published
        obtain ⟨contexts, kept⟩ := (publishRoot_ok_iff.mp ⟨a, published⟩).published
        obtain ⟨contexts', empty⟩ := ih kept ok
        refine ⟨?_, empty⟩
        rw [contexts', contexts]
        simp [publishedContexts]
      all_goals cases ok

end Succeeds

/-! ## What a step does to the queue -/

/-- Handling the event publishes the queue, or raises the event that does. -/
def BehaviourEvent.startsPublishing : BehaviourEvent → Bool
  | .startPublish _ => true
  | .natStatusChanged _ (.reachable _) => true
  | _ => false

/-- The root an `Index` command puts into the queue. -/
def Input.enqueues : Input → List Cid
  | .command (.index (rootCid :: _) _) _ => [rootCid]
  | _ => []

/-- The roots that the `Index` commands of a run put into the queue. -/
def enqueuedRoots (inputs : List Input) : List Cid := inputs.flatMap Input.enqueues

namespace Behaviour

/-- An event that starts publishing is waiting. -/
def Triggered (b : Behaviour) : Prop := ∃ event ∈ b.events, event.startsPublishing = true

/-- The address is as it was, and no event has gone. -/
structure Grows (b b' : Behaviour) : Prop where
  autonat : b'.autonat = b.autonat
  events : b.events ⊆ b'.events

variable {b b' b'' : Behaviour}

theorem Grows.refl : Grows b b := ⟨rfl, fun _ => id⟩

theorem Grows.pushEvent (event : BehaviourEvent) : Grows b (b.pushEvent event) :=
  ⟨rfl, List.subset_append_left _ _⟩

theorem Grows.handleBitswap (event : BitswapEvent) : Grows b (b.handleBitswap event) := by
  cases event with
  | progress id missing => exact .refl
  | complete id result =>
      simp only [Behaviour.handleBitswap]
      split
      · exact ⟨rfl, List.subset_append_left _ _⟩
      · exact .refl

theorem Grows.handleRequestResponse (event : RequestResponseEvent) :
    Grows b (b.handleRequestResponse event).1 := by
  have answered : ∀ id answer, Grows b (b.answerPending id answer).1 := by
    intro id answer
    unfold answerPending
    split <;> exact ⟨rfl, List.Subset.refl _⟩
  cases event with
  | request peer id request channel => exact .pushEvent _
  | response peer id response => exact answered _ _
  | outboundFailure peer id error => exact answered _ _
  | inboundFailure peer id error => exact .refl
  | responseSent peer id => exact .refl

theorem Triggered.grows (triggered : b.Triggered) (grows : Grows b b') : b'.Triggered := by
  obtain ⟨event, waiting, starts⟩ := triggered
  exact ⟨event, grows.events waiting, starts⟩

theorem triggered_publishAd (b : Behaviour) (address : Multiaddr) :
    (b.publishAd address).Triggered :=
  ⟨.startPublish address, by simp [publishAd, Behaviour.pushEvent], rfl⟩

end Behaviour

namespace UrsaService

variable {K : Type} {deps : Deps K} {B : Blocks} {s t : UrsaService K} {input : Input}

/-- While something is queued and an address is known, an event that starts publishing
is waiting. -/
def Alert (s : UrsaService K) : Prop :=
  s.shared.rootCids ≠ [] → s.behaviour.publicAddress.isSome = true → s.behaviour.Triggered

/-- What was published so far, followed by what is queued, is what was enqueued. -/
def Ledger (s : UrsaService K) : Prop :=
  publishedContexts s.shared ++ s.shared.rootCids.map contextOf =
    s.history.enqueued.map contextOf

/-- A step that leaves the queue alone. -/
structure Quiet (s t : UrsaService K) : Prop where
  shared : t.shared = s.shared
  enqueued : t.history.enqueued = s.history.enqueued
  alert : s.Alert → t.Alert

theorem Quiet.of_grows (shared : t.shared = s.shared)
    (enqueued : t.history.enqueued = s.history.enqueued)
    (grows : Behaviour.Grows s.behaviour t.behaviour) : Quiet s t := by
  refine ⟨shared, enqueued, ?_⟩
  intro alert queued known
  rw [shared] at queued
  rw [Behaviour.publicAddress, grows.autonat] at known
  exact (alert queued known).grows grows

/-- Delivering an event that starts no publishing. -/
theorem Quiet.of_pop {event : BehaviourEvent} {later : List BehaviourEvent}
    (first : s.behaviour.events = event :: later) (other : event.startsPublishing = false)
    (shared : t.shared = s.shared) (enqueued : t.history.enqueued = s.history.enqueued)
    (autonat : t.behaviour.autonat = s.behaviour.autonat) (events : t.behaviour.events = later) :
    Quiet s t := by
  refine ⟨shared, enqueued, ?_⟩
  intro alert queued known
  rw [shared] at queued
  rw [Behaviour.publicAddress, autonat] at known
  obtain ⟨waiting, member, starts⟩ := alert queued known
  rw [first] at member
  rcases List.mem_cons.mp member with rfl | member
  · rw [other] at starts
    cases starts
  · exact ⟨waiting, events ▸ member, starts⟩

theorem quiet_onBitswap {info : BitswapInfo} {later : List BehaviourEvent}
    (first : s.behaviour.events = .bitswap info :: later)
    (taken : onBitswap { s with behaviour := { s.behaviour with events := later } } info = some t) :
    Quiet s t := by
  obtain ⟨_, _, _, rfl⟩ := onBitswap_frame taken
  exact .of_pop first rfl rfl rfl rfl rfl

/-- A NAT status that became public raises the event that publishes. -/
theorem quiet_onNatStatusChanged {old new : NatStatus} {later : List BehaviourEvent}
    (first : s.behaviour.events = .natStatusChanged old new :: later) (env : DeliverEnv) :
    Quiet s (onNatStatusChanged { s with behaviour := { s.behaviour with events := later } } env
      old new) := by
  rcases onNatStatusChanged_cases { s with behaviour := { s.behaviour with events := later } } env
    old new with ⟨address, -, same⟩ | ⟨notPublic, _, _, same⟩
  · rw [same]
    exact ⟨rfl, rfl, fun _ _ _ => Behaviour.triggered_publishAd _ _⟩
  · rw [same]
    refine .of_pop first ?_ rfl rfl rfl rfl
    cases new with
    | reachable address => exact absurd rfl (notPublic address)
    | _ => rfl

/-- **What a step does to the queue**: nothing, unless it is an `Index` command or
handles a `StartPublish` event. -/
theorem queue_cases (taken : s.step deps B input = some t) :
    (Quiet s t ∧ input.enqueues = []) ∨
    (∃ root cids sender id, input = .command (.index (root :: cids) sender) id ∧
      t.shared = { s.shared with rootCids := s.shared.rootCids ++ [root] } ∧
      t.history.enqueued = s.history.enqueued ++ [root] ∧ t.Alert) ∨
    (∃ env address later, input = .deliver env ∧
      s.behaviour.events = .startPublish address :: later ∧
      onStartPublish deps B { s with behaviour := { s.behaviour with events := later } } env
        address = some t) := by
  cases turn_of_step taken with
  | command command id =>
      cases command with
      | getBitswap cid query sender =>
          refine .inl ⟨?_, rfl⟩
          simp only [onCommand]
          split
          · exact .of_grows rfl rfl .refl
          · exact .of_grows rfl rfl (by cases query <;> exact ⟨rfl, List.Subset.refl _⟩)
      | index cids sender =>
          cases cids with
          | nil => exact .inl ⟨.of_grows rfl rfl .refl, rfl⟩
          | cons root cids =>
              refine .inr (.inl ⟨root, cids, sender, id, rfl, rfl, rfl, ?_⟩)
              intro _ known
              simp only [onCommand] at known ⊢
              split
              · exact Behaviour.triggered_publishAd _ _
              · rename_i unknown
                rw [unknown] at known
                simp [unknown] at known
      | _ => exact .inl ⟨.of_grows rfl rfl ⟨rfl, List.Subset.refl _⟩, rfl⟩
  | deliver env event later _ first handled =>
      cases event with
      | startPublish address => exact .inr (.inr ⟨env, address, later, rfl, first, handled⟩)
      | bitswap info => exact .inl ⟨quiet_onBitswap first handled, rfl⟩
      | natStatusChanged old new =>
          cases handled
          exact .inl ⟨quiet_onNatStatusChanged first env, rfl⟩
      | gossipMessage peer topic message =>
          cases handled
          refine .inl ⟨?_, rfl⟩
          split <;> exact .of_pop first rfl rfl rfl rfl rfl
      | _ =>
          cases handled
          exact .inl ⟨.of_pop first rfl rfl rfl rfl rfl, rfl⟩
  | bitswap event => exact .inl ⟨.of_grows rfl rfl (.handleBitswap event), rfl⟩
  | requestResponse event => exact .inl ⟨.of_grows rfl rfl (.handleRequestResponse event), rfl⟩
  | autonat old new known =>
      refine .inl ⟨⟨rfl, rfl, ?_⟩, rfl⟩
      intro _ _ known
      cases new with
      | reachable address =>
          exact ⟨.natStatusChanged old (.reachable address),
            by simp [Behaviour.handleAutonat, Behaviour.pushEvent], rfl⟩
      | _ => cases known
  | autonatSilent address new known _ =>
      -- An address was known before, so the event is waiting already.
      refine .inl ⟨⟨rfl, rfl, ?_⟩, rfl⟩
      intro alert queued _
      exact alert queued (by simp [Behaviour.publicAddress, known])
  | insert cid data => exact .inl ⟨.of_grows rfl rfl .refl, rfl⟩
  | swarm _ isSwarm opened used discovery pushed raised =>
      refine .inl ⟨.of_grows rfl rfl ⟨rfl, List.subset_append_left _ _⟩, ?_⟩
      cases input with
      | command command id => cases isSwarm
      | _ => rfl

/-! ## Over a run -/

variable (deps B) in
/-- When a `StartPublish` event is handled, every traversal, chunk write and publish it
makes succeeds, and no announcement panics. -/
def PublishingSucceeds (s : UrsaService K) : Input → Prop
  | .deliver env => ∀ address later, s.behaviour.events = .startPublish address :: later →
      QueueSucceeds deps B s.indexProvider s.peerId s.store (advertisedAddress address) env.roots 0
        s.shared.rootCids s.shared
  | _ => True

/-- A queue that is published goes into the ledger and leaves nothing queued. -/
theorem onStartPublish_published {env : DeliverEnv} {address : Multiaddr} {behaviour : Behaviour}
    (succeeds : QueueSucceeds deps B s.indexProvider s.peerId s.store (advertisedAddress address)
      env.roots 0 s.shared.rootCids s.shared)
    (taken : onStartPublish deps B { s with behaviour } env address = some t) :
    publishedContexts t.shared = publishedContexts s.shared ++ s.shared.rootCids.map contextOf ∧
      t.shared.rootCids = [] ∧ t.history.enqueued = s.history.enqueued ∧
      t.status = s.status := by
  have ok := (publishQueue_ok_iff s.shared.rootCids 0 s.shared s.history.announced).mpr succeeds
  simp only [onStartPublish, ok] at taken
  cases taken
  obtain ⟨contexts, empty⟩ := publishQueue_published rfl (Prod.ext ok rfl)
  exact ⟨contexts, empty, rfl, rfl⟩

/-- A loop that goes on has published what it had to. -/
theorem publishingSucceeds_of_running (taken : s.step deps B input = some t)
    (running : t.status = .running) : PublishingSucceeds deps B s input := by
  cases input with
  | deliver env =>
      intro address later first
      rw [step_deliver env (running_of_step taken) first] at taken
      simp only [onEvent, onStartPublish] at taken
      split at taken
      · rename_i ok
        exact (publishQueue_ok_iff _ _ _ _).mp ok
      · cases taken
        cases running
      · cases taken
        cases running
      · cases taken
  | _ => trivial

theorem Ledger.step (ledger : s.Ledger) (succeeds : PublishingSucceeds deps B s input)
    (taken : s.step deps B input = some t) : t.Ledger := by
  rcases queue_cases taken with ⟨quiet, -⟩ | ⟨root, cids, sender, id, rfl, shared, enqueued, -⟩ |
    ⟨env, address, later, rfl, first, published⟩
  · rw [Ledger, quiet.shared, quiet.enqueued]
    exact ledger
  · have contexts : publishedContexts t.shared = publishedContexts s.shared := by
      rw [shared]
      rfl
    rw [Ledger, contexts, shared, enqueued, List.map_append, ← List.append_assoc, ledger,
      List.map_append]
  · obtain ⟨contexts, empty, enqueued, -⟩ :=
      onStartPublish_published (succeeds address later first) published
    rw [Ledger, contexts, empty, enqueued, List.map_nil, List.append_nil]
    exact ledger

theorem Alert.step (alert : s.Alert) (succeeds : PublishingSucceeds deps B s input)
    (taken : s.step deps B input = some t) : t.Alert := by
  rcases queue_cases taken with ⟨quiet, -⟩ | ⟨root, cids, sender, id, rfl, -, -, alert'⟩ |
    ⟨env, address, later, rfl, first, published⟩
  · exact quiet.alert alert
  · exact alert'
  · obtain ⟨-, empty, -, -⟩ := onStartPublish_published (succeeds address later first) published
    intro queued
    exact absurd empty queued

/-- What a step enqueues is what its input says, whatever becomes of the queue. -/
theorem step_enqueued (taken : s.step deps B input = some t) :
    t.history.enqueued = s.history.enqueued ++ input.enqueues := by
  rcases queue_cases taken with ⟨quiet, nothing⟩ | ⟨root, cids, sender, id, rfl, -, enqueued, -⟩ |
    ⟨env, address, later, rfl, -, published⟩
  · rw [quiet.enqueued, nothing, List.append_nil]
  · exact enqueued
  · obtain ⟨_, _, _, rfl⟩ := onStartPublish_frame published
    exact (List.append_nil _).symm

theorem ledger_new (peerId : PeerId) (config : NetworkConfig) (store : Store)
    (indexProvider : Provider K) (blockstore : Cid → Option Ipld) :
    (new peerId config store indexProvider blockstore).Ledger := rfl

/-- The ledger is right in every run, as long as the loop runs. -/
theorem ledger_of_run {start : UrsaService K} (ledger : start.Ledger) {inputs : List Input}
    (run : exec (UrsaService.step deps B) start inputs = some s) (running : s.status = .running) :
    s.Ledger := by
  refine exec_invariant (I := fun s : UrsaService K => s.status = .running → s.Ledger) ?_
    (fun _ => ledger) (meets_of_forall (fun _ _ _ => trivial) _) run running
  intro s input t kept _ taken running
  exact (kept (running_of_step taken)).step (publishingSucceeds_of_running taken running) taken

/-- **Queued roots are published once, in order, and none is stranded.**  In every run in
which publishing succeeds, whatever autonat makes of the address, in every state reached: the
roots published so far followed by those still queued are the roots enqueued so far; and while
something is queued and a public address is known, an event that starts publishing is
waiting. -/
theorem queued_roots_are_published_in_order (deps : Deps K) (B : Blocks) (peerId : PeerId)
    (config : NetworkConfig) (store : Store) (indexProvider : Provider K)
    (blockstore : Cid → Option Ipld) (inputs : List Input) (s : UrsaService K)
    (succeed : Meets (step deps B) (PublishingSucceeds deps B)
      (new peerId config store indexProvider blockstore) inputs)
    (run : exec (step deps B) (new peerId config store indexProvider blockstore) inputs = some s) :
    publishedContexts s.shared ++ s.shared.rootCids.map contextOf =
        (enqueuedRoots inputs).map contextOf ∧
      (s.shared.rootCids ≠ [] → s.behaviour.publicAddress.isSome = true →
        ∃ event ∈ s.behaviour.events, event.startsPublishing = true) := by
  have enqueued : s.history.enqueued = enqueuedRoots inputs :=
    exec_log (fun _ _ _ taken => step_enqueued taken) run
  obtain ⟨ledger, alert⟩ : s.Ledger ∧ s.Alert := by
    have start : (new peerId config store indexProvider blockstore).Ledger ∧
        (new peerId config store indexProvider blockstore).Alert :=
      ⟨ledger_new peerId config store indexProvider blockstore, fun queued => absurd rfl queued⟩
    refine exec_invariant (I := fun s : UrsaService K => s.Ledger ∧ s.Alert) ?_ start succeed run
    rintro s input t ⟨ledger, alert⟩ succeeds taken
    exact ⟨ledger.step succeeds taken, alert.step succeeds taken⟩
  refine ⟨?_, alert⟩
  rw [← enqueued]
  exact ledger

/-- `PublishingSucceeds`, by running the loop over the queue. -/
def publishingSucceeds (deps : Deps K) (B : Blocks) (s : UrsaService K) : Input → Bool
  | .deliver env =>
      match s.behaviour.events with
      | .startPublish address :: _ =>
          decide ((publishQueue deps B s.indexProvider s.peerId s.store (advertisedAddress address)
            env.roots 0 s.shared.rootCids s.shared []).1 = .ok ())
      | _ => true
  | _ => true

theorem publishingSucceeds_sound (s : UrsaService K) (input : Input)
    (checked : publishingSucceeds deps B s input = true) : PublishingSucceeds deps B s input := by
  cases input with
  | deliver env =>
      intro address later first
      simp only [publishingSucceeds, first, decide_eq_true_eq] at checked
      exact (publishQueue_ok_iff _ _ _ _).mp checked
  | _ => trivial

/-- An upload while the address is not known yet; it becomes known, a second root is
uploaded, the address vanishes, and the events are delivered. -/
def addressComesAndGoes : List Input :=
  [.command (.index [sampleRoot.1] 1) 0, .autonat (.reachable sampleAddress),
    .command (.index [sampleLeaf.1] 2) 0, .autonat .unknown, .deliver quietEnv, .deliver quietEnv,
    .command (.index [sampleRoot.1] 3) 0]

theorem queued_roots_are_published_in_order_sample :
    ∃ s, exec (step plainDeps plainBlocks) (sampleService sampleStore) addressComesAndGoes =
        some s ∧
      s.shared.rootCids = [sampleRoot.1] ∧
      publishedContexts s.shared ++ [contextOf sampleRoot.1] =
        [sampleRoot.1, sampleLeaf.1, sampleRoot.1].map contextOf := by
  have evaluated : (exec (step plainDeps plainBlocks) (sampleService sampleStore)
      addressComesAndGoes).map (fun s => s.shared.rootCids) = some [sampleRoot.1] := by
    decide +kernel
  obtain ⟨s, run, queue⟩ := Option.map_eq_some_iff.mp evaluated
  have succeed := meets_of_passes publishingSucceeds_sound
    (show passes (step plainDeps plainBlocks) (publishingSucceeds plainDeps plainBlocks)
      (sampleService sampleStore) addressComesAndGoes = true by decide +kernel)
  have ledger := (queued_roots_are_published_in_order plainDeps plainBlocks _ _ _ _ _
    addressComesAndGoes s succeed run).1
  rw [queue] at ledger
  exact ⟨s, run, queue, ledger⟩

end UrsaService

end Ursa.Network

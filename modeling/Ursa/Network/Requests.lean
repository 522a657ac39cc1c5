/-
# Network.Requests — block requests over whole runs of the service

Every step of the service is a step of the desk of `Network.Exchange` (`desk_step`), so
what holds of the desk holds in every state a run of the service reaches.

* `every_request_is_answered_once` — each sender waits under its own CID or has been
  sent one reply, and is never forgotten.
* The senders that wait for one CID are answered together, by whichever of their
  queries is delivered first.  So a `Sync` request can be answered by a `Get`
  (`sync_replies_mean_complete`), and a request can fail by the failure of an
  earlier one (`not_found_is_own_iff`).
-/
import Ursa.Network.Exchange
import Ursa.Network.Indexing

namespace Ursa.Network

set_option autoImplicit false

open Ursa.Theory.Run
open Ursa.IndexProvider

/-- The outcome of a query, if the event is one. -/
def BehaviourEvent.asBitswap : BehaviourEvent → Option BitswapInfo
  | .bitswap info => some info
  | _ => none

namespace UrsaService

variable {K : Type} {deps : Deps K} {B : Blocks} {s t : UrsaService K} {input : Input}

/-! ## The service as a desk -/

def deskOf (store : Store) (b : Behaviour) (channels : Cid → Option (List SenderId))
    (h : History) : Desk :=
  { store
    queries := b.queries
    queued := b.events.filterMap BehaviourEvent.asBitswap
    waiting := fun cid => (channels cid).getD []
    requests := h.requests
    completed := h.completed
    delivered := h.delivered
    replies := h.replies }

def desk (s : UrsaService K) : Desk := deskOf s.store s.behaviour s.responseChannels s.history

/-- Queueing events other than a query's outcome is nothing to the desk. -/
theorem deskOf_pushed (store : Store) (b : Behaviour) (channels : Cid → Option (List SenderId))
    (h : History) {pushed : List BehaviourEvent} (other : ∀ event ∈ pushed, event.asBitswap = none) :
    deskOf store { b with events := b.events ++ pushed } channels h =
      deskOf store b channels h := by
  have nothing : pushed.filterMap BehaviourEvent.asBitswap = [] := List.filterMap_eq_nil_iff.mpr other
  simp [deskOf, nothing]

theorem deskOf_pushEvent (store : Store) (b : Behaviour) (channels : Cid → Option (List SenderId))
    (h : History) {event : BehaviourEvent} (other : event.asBitswap = none) :
    deskOf store (b.pushEvent event) channels h = deskOf store b channels h :=
  deskOf_pushed store b channels h (by simpa using other)

theorem deskOf_handleRequestResponse (store : Store) (b : Behaviour)
    (channels : Cid → Option (List SenderId)) (h : History) (event : RequestResponseEvent) :
    deskOf store (b.handleRequestResponse event).1 channels h = deskOf store b channels h := by
  have answered : ∀ id answer, deskOf store (b.answerPending id answer).1 channels h =
      deskOf store b channels h := by
    intro id answer
    unfold Behaviour.answerPending
    split <;> rfl
  cases event with
  | request peer id request channel => exact deskOf_pushEvent _ _ _ _ rfl
  | response peer id response => exact answered _ _
  | outboundFailure peer id error => exact answered _ _
  | inboundFailure peer id error => rfl
  | responseSent peer id => rfl

/-- A delivered event other than a query's outcome is nothing to the desk. -/
theorem deskOf_pop (store : Store) {b : Behaviour} (channels : Cid → Option (List SenderId))
    (h : History) {event : BehaviourEvent} {later : List BehaviourEvent}
    (first : b.events = event :: later) (other : event.asBitswap = none) :
    deskOf store { b with events := later } channels h = deskOf store b channels h := by
  simp [deskOf, first, other]

/-- The senders that waited are told what the store says, in order. -/
theorem answer_eq (cid : Cid) (chans : List SenderId) (s : UrsaService K) :
    answer cid chans s = { s with history := { s.history with
      replies := chans.reverse.map (s.desk.replyTo cid) ++ s.history.replies } } := by
  induction chans generalizing s with
  | nil => rfl
  | cons chan rest ih =>
      have one : (if s.store.contains (convertCid cid.toBytes) then s.reply chan (.ok ())
          else s.reply chan (.error (.notFound cid))) =
          { s with history := { s.history with
              replies := s.desk.replyTo cid chan :: s.history.replies } } := by
        by_cases stored : s.store.contains cid = true <;>
          simp [convertCid_toBytes, Desk.replyTo, Desk.verdict, desk, deskOf, reply, stored]
      rw [answer, one, ih]
      simp only [List.reverse_cons, List.map_append, List.map_cons, List.map_nil,
        List.append_assoc, List.cons_append, List.nil_append]
      rfl

/-! ## Every step is a step of the desk -/

/-- What an input is to the desk. -/
def labelOf (s : UrsaService K) : Input → Desk.Label
  | .command (.getBitswap cid query sender) id =>
      .request { sender, cid, query, peers := s.behaviour.peers
                 queryId := if s.behaviour.peers = ∅ then none else some id }
  | .bitswap (.complete id result) =>
      match s.behaviour.queries id with
      | some info => .complete info result.isOk
      | none => .idle
  | .deliver _ =>
      match s.behaviour.events with
      | .bitswap info :: _ => .deliver info
      | _ => .idle
  | .insert cid data => .insert cid data
  | _ => .idle

theorem waiting_update (channels : Cid → Option (List SenderId)) (cid : Cid)
    (chans : Option (List SenderId)) :
    (fun c => (Function.update channels cid chans c).getD []) =
      Function.update (fun c => (channels c).getD []) cid (chans.getD []) :=
  Function.comp_update (fun chans : Option (List SenderId) => chans.getD []) channels cid chans

theorem desk_getBitswap (cid : Cid) (query : BitswapType) (sender : SenderId) (id : Nat) :
    Desk.Step s.desk (s.labelOf (.command (.getBitswap cid query sender) id))
      (s.onCommand id (.getBitswap cid query sender)).desk := by
  simp only [onCommand, labelOf]
  split
  · exact .refuse { sender, cid, query, peers := s.behaviour.peers, queryId := none } rfl
  · have accepted := Desk.Step.accept (d := s.desk)
      { sender, cid, query, peers := s.behaviour.peers, queryId := some id } id rfl
    refine cast (congrArg (Desk.Step s.desk _) ?_) accepted
    simp only [Desk.accept, desk, deskOf, waiting_update, Option.getD_some]
    cases s.responseChannels cid <;> cases query <;> rfl

theorem desk_complete (keyed : s.desk.Keyed) (id : QueryId) (result : Except String Unit) :
    Desk.Step s.desk (s.labelOf (.bitswap (.complete id result)))
      (s.onBitswapEvent (.complete id result)).desk := by
  cases live : s.behaviour.queries id with
  | none =>
      have same : (s.onBitswapEvent (.complete id result)).desk = s.desk := by
        simp [onBitswapEvent, Behaviour.handleBitswap, live, desk, deskOf]
      simp only [labelOf, live, same]
      exact .idle
  | some info =>
      obtain ⟨own, notYet⟩ := keyed id info live
      subst own
      have completed := Desk.Step.complete (d := s.desk) info result.isOk live
      rw [labelOf, live]
      refine cast (congrArg (Desk.Step s.desk _) ?_) completed
      simp only [Desk.complete, desk, deskOf, onBitswapEvent, Behaviour.handleBitswap, live,
        Behaviour.pushEvent, Behaviour.cancel, List.filterMap_append, List.filterMap_cons,
        BehaviourEvent.asBitswap, List.filterMap_nil]
      cases result with
      | ok _ => rfl
      | error e =>
          obtain ⟨cid, id, found⟩ := info
          obtain rfl : found = false := notYet
          rfl

theorem desk_onBitswap {info : BitswapInfo} {later : List BehaviourEvent}
    (first : s.behaviour.events = .bitswap info :: later)
    (taken : onBitswap { s with behaviour := { s.behaviour with events := later } } info = some t) :
    Desk.Step s.desk (.deliver info) t.desk := by
  have queued : s.desk.queued = info :: later.filterMap BehaviourEvent.asBitswap := by
    simp [desk, deskOf, first, BehaviourEvent.asBitswap]
  simp only [onBitswap, track, convertCid_toBytes] at taken
  split at taken
  · rename_i chans found
    have waiting : s.desk.waiting info.cid = chans := by
      simp only [desk, deskOf]
      rw [found]
      rfl
    split at taken
    · cases taken
    · rename_i ready
      cases taken
      have delivered := Desk.Step.deliver (d := s.desk) info _ queued fun isFound _ => by
        cases stored : s.store.contains info.cid with
        | true => exact stored
        | false => exact (ready isFound stored).elim
      refine cast (congrArg (Desk.Step s.desk _) ?_) delivered
      rw [answer_eq]
      simp only [Desk.deliver, waiting]
      simp only [desk, deskOf, Behaviour.cancel, waiting_update]
      rfl
  · rename_i absent
    cases taken
    have waiting : s.desk.waiting info.cid = [] := by
      simp only [desk, deskOf]
      rw [absent]
      rfl
    have delivered := Desk.Step.deliver (d := s.desk) info _ queued fun _ someone =>
      absurd waiting someone
    refine cast (congrArg (Desk.Step s.desk _) ?_) delivered
    have nobody : Function.update s.desk.waiting info.cid [] = s.desk.waiting := by
      rw [← waiting, Function.update_eq_self]
    simp only [Desk.deliver, waiting, nobody, List.reverse_nil, List.map_nil, List.nil_append]
    rfl

theorem desk_onNatStatusChanged (env : DeliverEnv) (old new : NatStatus) :
    (s.onNatStatusChanged env old new).desk = s.desk := by
  rcases onNatStatusChanged_cases s env old new with ⟨_, -, same⟩ | ⟨-, _, _, same⟩
  · rw [same]
    exact deskOf_pushEvent _ _ _ _ rfl
  · rw [same]
    rfl

theorem idle_of_eq (same : t.desk = s.desk) : Desk.Step s.desk .idle t.desk := by
  rw [same]
  exact .idle

theorem desk_onCommand (command : UrsaCommand) (id : Nat) :
    Desk.Step s.desk (s.labelOf (.command command id)) (s.onCommand id command).desk := by
  cases command with
  | getBitswap cid query sender => exact desk_getBitswap cid query sender id
  | index cids sender =>
      cases cids with
      | nil => exact idle_of_eq rfl
      | cons root cids =>
          apply idle_of_eq
          simp only [onCommand]
          split
          · exact deskOf_pushEvent _ _ _ _ rfl
          · rfl
  | _ => exact idle_of_eq rfl

/-- Only a `Bitswap` event concerns the desk. -/
theorem desk_onEvent {event : BehaviourEvent} {later : List BehaviourEvent} {env : DeliverEnv}
    (first : s.behaviour.events = event :: later)
    (taken : onEvent deps B { s with behaviour := { s.behaviour with events := later } } env event =
      some t) : Desk.Step s.desk (s.labelOf (.deliver env)) t.desk := by
  simp only [labelOf, first]
  have popped : event.asBitswap = none → ∀ h, deskOf s.store
      { s.behaviour with events := later } s.responseChannels h =
      deskOf s.store s.behaviour s.responseChannels h :=
    fun other h => deskOf_pop _ _ h first other
  cases event with
  | bitswap info => exact desk_onBitswap first taken
  | natStatusChanged old new =>
      cases taken
      exact idle_of_eq ((desk_onNatStatusChanged env old new).trans (popped rfl _))
  | startPublish address =>
      obtain ⟨_, _, _, rfl⟩ := onStartPublish_frame taken
      exact idle_of_eq (popped rfl _)
  | gossipMessage peer topic message =>
      cases taken
      apply idle_of_eq
      split <;> exact popped rfl _
  | _ =>
      cases taken
      exact idle_of_eq (popped rfl _)

/-- **Every step of the service is a step of the desk.** -/
theorem desk_step (keyed : s.desk.Keyed) (taken : s.step deps B input = some t) :
    Desk.Step s.desk (s.labelOf input) t.desk := by
  cases turn_of_step taken with
  | command command id => exact desk_onCommand command id
  | deliver env event later _ first handled => exact desk_onEvent first handled
  | bitswap event =>
      cases event with
      | progress id missing => exact idle_of_eq rfl
      | complete id result => exact desk_complete keyed id result
  | requestResponse event => exact idle_of_eq (deskOf_handleRequestResponse _ _ _ _ event)
  | autonat old new known => exact idle_of_eq (deskOf_pushEvent _ _ _ _ rfl)
  | autonatSilent address new known changes => exact idle_of_eq rfl
  | insert cid data => exact .insert cid data
  | swarm _ isSwarm opened used discovery pushed raised =>
      have other : ∀ event ∈ pushed, event.asBitswap = none := by
        intro event member
        have fromSwarm := raised event member
        cases event with
        | bitswap info => cases fromSwarm
        | _ => rfl
      have unchanged := idle_of_eq (s := s)
        (t := { s with behaviour := { s.behaviour with events := s.behaviour.events ++ pushed } })
        (deskOf_pushed _ _ _ _ other)
      cases input with
      | relayServer event => exact unchanged
      | gossipsub event => exact unchanged
      | connection event => exact unchanged
      | pollDiscovery => exact unchanged
      | _ => cases isSwarm

/-! ## Every request is answered once -/

def FreshIds (s : UrsaService K) (input : Input) : Prop := s.desk.FreshLabel (s.labelOf input)

theorem deskInv_new (peerId : PeerId) (config : NetworkConfig) (store : Store)
    (indexProvider : Provider K) (blockstore : Cid → Option Ipld) :
    (new peerId config store indexProvider blockstore).desk.Inv := by
  constructor <;>
    simp [desk, deskOf, new, History.empty, Behaviour.new]

/-- The senders that wait for a CID. -/
def waiting (s : UrsaService K) (cid : Cid) : List SenderId := (s.responseChannels cid).getD []

/-- How many replies a sender has been sent. -/
def repliesTo (s : UrsaService K) (sender : SenderId) : Nat :=
  s.history.replies.countP fun a => a.sender = sender

/-- What holds of block requests in every state. -/
structure RequestsAnswered (s : UrsaService K) : Prop where
  /-- A sender waits under its own CID and has had no reply, or waits nowhere and has
  had one. -/
  once : ∀ r ∈ s.history.requests,
    (r.sender ∈ s.waiting r.cid ∧ s.repliesTo r.sender = 0) ∨
      ((∀ cid, r.sender ∉ s.waiting cid) ∧ s.repliesTo r.sender = 1)
  /-- A waiting sender's own query is live, or its outcome is still queued. -/
  pending : ∀ r ∈ s.history.requests, r.sender ∈ s.waiting r.cid → ∃ id, r.queryId = some id ∧
    (s.behaviour.queries id = some { cid := r.cid, queryId := id, blockFound := false } ∨
      ∃ found, .bitswap { cid := r.cid, queryId := id, blockFound := found } ∈ s.behaviour.events)
  /-- Nobody is answered who did not ask. -/
  known : ∀ a ∈ s.history.replies, ∃ r ∈ s.history.requests, r.sender = a.sender
  /-- Success is reported only with the block in the store. -/
  stored : ∀ a ∈ s.history.replies, a.result = .ok () → ∀ r ∈ s.history.requests,
    r.sender = a.sender → a.store.contains r.cid = true
  /-- A delivered query is not live. -/
  delivered : ∀ info ∈ s.history.delivered, s.behaviour.queries info.queryId = none

theorem RequestsAnswered.of_inv (inv : s.desk.Inv) : RequestsAnswered s where
  once r member := by
    have count : (s.waiting r.cid).count r.sender + s.repliesTo r.sender = 1 := inv.once r member
    by_cases here : r.sender ∈ s.waiting r.cid
    · have positive := List.count_pos_iff.mpr here
      exact .inl ⟨here, by omega⟩
    · rw [List.count_eq_zero.mpr here, Nat.zero_add] at count
      refine .inr ⟨?_, count⟩
      intro cid elsewhere
      obtain ⟨r', listed, same, forCid, -⟩ := inv.waits cid _ elsewhere
      obtain rfl := inv.eq_of_sender listed member same
      exact here (forCid ▸ elsewhere)
  pending r member here := by
    obtain ⟨r', listed, same, -, id, query, isOpen⟩ := inv.waits r.cid _ here
    obtain rfl := inv.eq_of_sender listed member same
    refine ⟨id, query, isOpen.imp_right ?_⟩
    rintro ⟨⟨cid, id, found⟩, queued, rfl, rfl⟩
    obtain ⟨event, listed, isBitswap⟩ := List.mem_filterMap.mp queued
    cases event with
    | bitswap info =>
        cases isBitswap
        exact ⟨found, listed⟩
    | _ => cases isBitswap
  known a replied := by
    obtain ⟨r, member, own, -⟩ := inv.known a replied
    exact ⟨r, member, own⟩
  stored a replied ok r asked own := by
    obtain ⟨r', member, own', contains⟩ := inv.known a replied
    obtain rfl := inv.eq_of_sender member asked (own'.trans own.symm)
    exact contains ok
  delivered info member := (inv.deliveredAsked info member).2.1

/-- **Every block request is answered exactly once.**  In every run with fresh senders
and fresh query ids, in every state reached. -/
theorem every_request_is_answered_once (deps : Deps K) (B : Blocks) (peerId : PeerId)
    (config : NetworkConfig) (store : Store) (indexProvider : Provider K)
    (blockstore : Cid → Option Ipld) (inputs : List Input) (s : UrsaService K)
    (fresh : Meets (step deps B) FreshIds (new peerId config store indexProvider blockstore) inputs)
    (run : exec (step deps B) (new peerId config store indexProvider blockstore) inputs = some s) :
    RequestsAnswered s :=
  .of_inv <| exec_invariant (I := fun s : UrsaService K => s.desk.Inv)
    (fun _ _ _ inv fresh taken => inv.step fresh (desk_step inv.keyed taken))
    (deskInv_new peerId config store indexProvider blockstore) fresh run

/-- `FreshIds`, by looking the new sender and id up. -/
def freshIds (s : UrsaService K) (input : Input) : Bool :=
  match s.labelOf input with
  | .request r =>
      r.sender ∉ s.history.requests.map Request.sender &&
        match r.queryId with
        | some id => id ∉ s.history.requests.filterMap Request.queryId
        | none => true
  | _ => true

theorem freshIds_sound (s : UrsaService K) (input : Input) (checked : freshIds s input = true) :
    FreshIds s input := by
  unfold freshIds at checked
  unfold FreshIds
  split at checked
  · rename_i r label
    rw [label]
    simp only [Bool.and_eq_true, decide_eq_true_eq] at checked
    refine ⟨checked.1, ?_⟩
    intro id query
    have notUsed := checked.2
    rw [query] at notUsed
    exact of_decide_eq_true notUsed
  · rename_i other
    cases label : s.labelOf input with
    | request r => exact absurd label (other r)
    | _ => trivial

def connect (id : ConnectionId) (peer : PeerId) : Input :=
  .connection (.established ⟨id, peer, .dialer []⟩ none)

/-- A `Sync` and a `Get` wait for one root, whose own block arrives and completes the
`Get`. -/
def getAnswersSync : List Input :=
  [connect 1 ⟨"12D3KooWA"⟩, .command (.getBitswap sampleRoot.1 .sync 1) 1,
    .command (.getBitswap sampleRoot.1 .get 2) 2, .insert sampleRoot.1 sampleRoot.2,
    .bitswap (.complete 2 (.ok ())), .deliver quietEnv]

theorem getAnswersSync_fresh :
    Meets (step plainDeps plainBlocks) FreshIds (sampleService .empty) getAnswersSync :=
  meets_of_passes freshIds_sound
    (show passes (step plainDeps plainBlocks) freshIds (sampleService .empty) getAnswersSync = true
      by decide +kernel)

theorem every_request_is_answered_once_sample :
    ∃ s, exec (step plainDeps plainBlocks) (sampleService .empty) getAnswersSync = some s ∧
      s.repliesTo 1 = 1 ∧ s.repliesTo 2 = 1 ∧ RequestsAnswered s := by
  have evaluated : (exec (step plainDeps plainBlocks) (sampleService .empty) getAnswersSync).map
      (fun s => (s.repliesTo 1, s.repliesTo 2)) = some (1, 1) := by decide +kernel
  obtain ⟨s, run, facts⟩ := Option.map_eq_some_iff.mp evaluated
  simp only [Prod.mk.injEq] at facts
  exact ⟨s, run, facts.1, facts.2, every_request_is_answered_once plainDeps plainBlocks _ _ _ _ _
    getAnswersSync s getAnswersSync_fresh run⟩

/-! ## Replies to `Sync` requests -/

/-- Bitswap reports success only for what is stored, and stores what the CIDs say. -/
def BitswapHonest (B : Blocks) (s : UrsaService K) (input : Input) : Prop :=
  s.desk.Honest B (s.labelOf input)

/-- A waiting `Sync` sender is answered from the store only after a `Sync` query for
its root has completed successfully. -/
def SyncServed (s : UrsaService K) (input : Input) : Prop := s.desk.SyncServed (s.labelOf input)

/-- **When a `Sync` reply means that the DAG is there.**  In a run in which no waiting
`Sync` sender is answered from the store before a `Sync` query for its root has
completed successfully, in every state: whenever a `Sync` sender was sent success,
everything reachable from its root was in the store at that moment. -/
theorem sync_replies_mean_complete (deps : Deps K) (B : Blocks) (peerId : PeerId)
    (config : NetworkConfig) (store : Store) (indexProvider : Provider K)
    (blockstore : Cid → Option Ipld) (inputs : List Input)
    (fresh : Meets (step deps B) FreshIds (new peerId config store indexProvider blockstore) inputs)
    (honest : Meets (step deps B) (BitswapHonest B)
      (new peerId config store indexProvider blockstore) inputs)
    (served : Meets (step deps B) SyncServed
      (new peerId config store indexProvider blockstore) inputs) :
    Always (step deps B) (fun s => s.desk.SyncRepliesComplete B)
      (new peerId config store indexProvider blockstore) inputs := by
  refine always_of_invariant
    (I := fun s : UrsaService K =>
      s.desk.Inv ∧ s.desk.Synced B ∧ s.desk.SyncRepliesComplete B) ?_ (fun _ good => good.2.2)
    ⟨deskInv_new peerId config store indexProvider blockstore, ?_, ?_⟩
    ((fresh.and honest).and served)
  · rintro s input t ⟨inv, synced, complete⟩ ⟨⟨fresh, honest⟩, served⟩ taken
    have step := desk_step inv.keyed taken
    exact ⟨inv.step fresh step, synced.step inv fresh honest step,
      complete.step inv synced fresh served step⟩
  · simp [Desk.Synced, desk, deskOf, new, History.empty]
  · simp [Desk.SyncRepliesComplete, desk, deskOf, new, History.empty]

/-- `BitswapHonest`, with a bound on the loop of `missing_blocks`. -/
def bitswapHonest (fuel : Nat) (B : Blocks) (s : UrsaService K) (input : Input) : Bool :=
  match s.labelOf input with
  | .complete info true =>
      s.history.requests.all fun r => r.queryId ≠ some info.queryId ||
        match r.query with
        | .sync => missingLoop B s.store fuel [r.cid] [] = .ok []
        | .get => s.store.contains r.cid
  | .insert cid data => (s.store.get cid).all fun old => old = data
  | _ => true

theorem bitswapHonest_sound (fuel : Nat) (B : Blocks) (s : UrsaService K) (input : Input)
    (checked : bitswapHonest fuel B s input = true) : BitswapHonest B s input := by
  unfold bitswapHonest at checked
  unfold BitswapHonest
  split at checked
  · rename_i info label
    rw [label]
    intro r member own
    have here := List.all_eq_true.mp checked r member
    simp only [own, ne_eq, not_true_eq_false, decide_false, Bool.false_or] at here
    cases query : r.query with
    | sync =>
        simp only [query, decide_eq_true_eq] at here
        exact ⟨fuel, here⟩
    | get =>
        simp only [query] at here
        exact here
  · rename_i cid data label
    rw [label]
    intro old found
    have same : s.store.get cid = some old := found
    rw [same] at checked
    simpa using checked
  · rename_i notComplete notInsert
    cases label : s.labelOf input with
    | complete info found =>
        cases found with
        | true => exact absurd label (notComplete info)
        | false => trivial
    | insert cid data => exact absurd label (notInsert cid data)
    | _ => trivial

/-- `SyncServed`, by looking at the completed queries. -/
def syncServed (s : UrsaService K) (input : Input) : Bool :=
  match s.labelOf input with
  | .deliver info =>
      s.history.requests.any fun r => r.query = .sync && r.cid = info.cid &&
        s.history.completed.any fun done => r.queryId = some done.queryId && done.blockFound
  | _ => true

theorem syncServed_sound (s : UrsaService K) (input : Input) (checked : syncServed s input = true) :
    SyncServed s input := by
  unfold syncServed at checked
  unfold SyncServed
  split at checked
  · rename_i info label
    rw [label]
    intro _ _ _ _ _
    obtain ⟨r, member, facts⟩ := List.any_eq_true.mp checked
    simp only [Bool.and_eq_true, decide_eq_true_eq, List.any_eq_true] at facts
    obtain ⟨⟨isSync, forCid⟩, done, completed, own, found⟩ := facts
    exact ⟨r, member, isSync, forCid, done, completed, own, found⟩
  · rename_i other
    cases label : s.labelOf input with
    | deliver info => exact absurd label (other info)
    | _ => trivial

/-- A `Sync` that brings the whole DAG. -/
def syncCompletes : List Input :=
  [connect 1 ⟨"12D3KooWA"⟩, .command (.getBitswap sampleRoot.1 .sync 1) 1,
    .insert sampleRoot.1 sampleRoot.2, .insert sampleLeaf.1 sampleLeaf.2,
    .bitswap (.complete 1 (.ok ())), .deliver quietEnv]

theorem sync_replies_mean_complete_sample :
    Always (step plainDeps plainBlocks) (fun s => s.desk.SyncRepliesComplete plainBlocks)
      (sampleService .empty) syncCompletes := by
  refine sync_replies_mean_complete plainDeps plainBlocks _ _ _ _ _ syncCompletes
    (meets_of_passes freshIds_sound ?_) (meets_of_passes (bitswapHonest_sound 8 plainBlocks) ?_)
    (meets_of_passes syncServed_sound ?_)
  · show passes (step plainDeps plainBlocks) freshIds (sampleService .empty) syncCompletes = true
    decide +kernel
  · show passes (step plainDeps plainBlocks) (bitswapHonest 8 plainBlocks) (sampleService .empty)
      syncCompletes = true
    decide +kernel
  · show passes (step plainDeps plainBlocks) syncServed (sampleService .empty) syncCompletes = true
    decide +kernel

/-- A `Get` that completes answers the `Sync` that waits for the same root, although
the root's child is not in the store. -/
theorem get_answers_a_waiting_sync :
    Meets (step plainDeps plainBlocks) FreshIds (sampleService .empty) getAnswersSync ∧
    Meets (step plainDeps plainBlocks) (BitswapHonest plainBlocks) (sampleService .empty)
      getAnswersSync ∧
    ∃ s, exec (step plainDeps plainBlocks) (sampleService .empty) getAnswersSync = some s ∧
      ¬ s.desk.SyncRepliesComplete plainBlocks := by
  have honest : Meets (step plainDeps plainBlocks) (BitswapHonest plainBlocks)
      (sampleService .empty) getAnswersSync :=
    meets_of_passes (bitswapHonest_sound 8 plainBlocks)
      (show passes (step plainDeps plainBlocks) (bitswapHonest 8 plainBlocks)
        (sampleService .empty) getAnswersSync = true by decide +kernel)
  have replies : (exec (step plainDeps plainBlocks) (sampleService .empty) getAnswersSync).map
      (fun s => s.history.replies.map fun a => (a.sender, a.result.isOk,
        a.store.contains sampleLeaf.1,
        decide (links plainBlocks a.store sampleRoot.1 = some [sampleLeaf.1, sampleLeaf.1]))) =
      some [(2, true, false, true), (1, true, false, true)] := by decide +kernel
  have requests : (exec (step plainDeps plainBlocks) (sampleService .empty) getAnswersSync).map
      (fun s => s.history.requests.map fun r => (r.sender, r.cid, r.query)) =
      some [(2, sampleRoot.1, .get), (1, sampleRoot.1, .sync)] := by decide +kernel
  obtain ⟨s, run, replied⟩ := Option.map_eq_some_iff.mp replies
  rw [run, Option.map_some, Option.some.injEq] at requests
  refine ⟨getAnswersSync_fresh, honest, s, run, ?_⟩
  intro complete
  obtain ⟨a, listed, facts⟩ : ∃ a ∈ s.history.replies, (a.sender, a.result.isOk,
      a.store.contains sampleLeaf.1,
      decide (links plainBlocks a.store sampleRoot.1 = some [sampleLeaf.1, sampleLeaf.1])) =
      (1, true, false, true) := by
    rw [← List.mem_map, replied]
    simp
  obtain ⟨r, member, own⟩ : ∃ r ∈ s.history.requests,
      (r.sender, r.cid, r.query) = (1, sampleRoot.1, .sync) := by
    rw [← List.mem_map, requests]
    simp
  simp only [Prod.mk.injEq, decide_eq_true_eq] at facts own
  obtain ⟨sender, ok, absent, linked⟩ := facts
  have success : a.result = .ok () := by
    cases result : a.result with
    | ok u => rfl
    | error e => simp [result, Except.isOk, Except.toBool] at ok
  have present := complete a listed success r member (own.1.trans sender.symm) own.2.2
  have reach : Reach plainBlocks a.store r.cid sampleLeaf.1 :=
    .single ⟨_, by rw [own.2.1]; exact linked, by simp⟩
  rw [present _ reach] at absent
  cases absent

/-! ## Replies that report a failure -/

/-- While the loop runs: no failed outcome is delivered for a CID that is not stored
while somebody waits for it whose own query has not failed. -/
def OwnFailure (s : UrsaService K) (input : Input) : Prop :=
  s.status = .running → s.desk.OwnFailure (s.labelOf input)

theorem deliver_of_labelOf {info : BitswapInfo} (label : s.labelOf input = .deliver info) :
    ∃ env later, input = .deliver env ∧ s.behaviour.events = .bitswap info :: later := by
  cases input with
  | deliver env =>
      simp only [labelOf] at label
      split at label
      · rename_i info' later first
        cases label
        exact ⟨env, later, rfl, first⟩
      · cases label
  | command command id => cases command <;> cases label
  | bitswap event =>
      cases event with
      | progress id missing => cases label
      | complete id result =>
          simp only [labelOf] at label
          split at label <;> cases label
  | _ => cases label

variable (deps B) in
/-- A failed outcome can always be delivered. -/
theorem deliver_failed {info : BitswapInfo} {later : List BehaviourEvent} (env : DeliverEnv)
    (running : s.status = .running) (first : s.behaviour.events = .bitswap info :: later)
    (failed : info.blockFound = false) : ∃ t, s.step deps B (.deliver env) = some t := by
  rw [step_deliver env running first]
  simp only [onEvent, onBitswap, failed]
  split
  · exact ⟨_, rfl⟩
  · exact ⟨_, rfl⟩

theorem ownFailure_iff (inv : s.desk.Inv) (errors : s.desk.ErrorsOwn) (fresh : FreshIds s input) :
    OwnFailure s input ↔ ∀ t, s.step deps B input = some t → t.desk.ErrorsOwn := by
  constructor
  · intro ownFailure t taken
    exact errors.step inv fresh (ownFailure (running_of_step taken)) (desk_step inv.keyed taken)
  · intro next running
    cases label : s.labelOf input with
    | deliver info =>
        intro failed
        obtain ⟨env, later, rfl, first⟩ := deliver_of_labelOf label
        obtain ⟨t, taken⟩ := deliver_failed deps B env running first failed
        have errors' := next t taken
        have step := desk_step inv.keyed taken
        rw [label] at step
        generalize t.desk = d' at step errors'
        cases step with
        | deliver info later first stored => exact Desk.ownFailure_of_errorsOwn errors' failed
    | _ => trivial

/-- **When a not-found reply is the request's own.**  Over any run with fresh senders
and query ids, every accepted request that was sent an error had its own query
complete with an error before, if and only if no failed outcome is delivered for a CID
that is not stored while somebody waits for it whose own query has not failed. -/
theorem not_found_is_own_iff (deps : Deps K) (B : Blocks) (peerId : PeerId)
    (config : NetworkConfig) (store : Store) (indexProvider : Provider K)
    (blockstore : Cid → Option Ipld) (inputs : List Input)
    (fresh : Meets (step deps B) FreshIds
      (new peerId config store indexProvider blockstore) inputs) :
    Always (step deps B) (fun s => s.desk.ErrorsOwn)
        (new peerId config store indexProvider blockstore) inputs ↔
      Meets (step deps B) OwnFailure (new peerId config store indexProvider blockstore) inputs :=
  always_iff_meets (I := fun s : UrsaService K => s.desk.Inv)
    (fun _ _ _ inv fresh taken => inv.step fresh (desk_step inv.keyed taken))
    (fun _ _ inv errors fresh => ownFailure_iff inv errors fresh)
    (deskInv_new peerId config store indexProvider blockstore)
    (by simp [Desk.ErrorsOwn, desk, deskOf, new, History.empty]) fresh

/-- A request that fails by its own query. -/
def ownFails : List Input :=
  [connect 1 ⟨"12D3KooWA"⟩, .command (.getBitswap sampleRoot.1 .get 1) 1,
    .bitswap (.complete 1 (.error "block not found")), .deliver quietEnv]

/-- `OwnFailure`, by looking at the completed queries. -/
def ownFailure (s : UrsaService K) (input : Input) : Bool :=
  match s.labelOf input with
  | .deliver _ =>
      s.history.requests.all fun r => (r.queryId).all fun id =>
        s.history.completed.any fun done => done.queryId = id && !done.blockFound
  | _ => true

theorem ownFailure_sound (s : UrsaService K) (input : Input) (checked : ownFailure s input = true) :
    OwnFailure s input := by
  unfold ownFailure at checked
  intro _
  split at checked
  · rename_i info label
    rw [label]
    intro _ _ r member _ id query
    have here := List.all_eq_true.mp checked r member
    simp only [query, Option.all_some, List.any_eq_true, Bool.and_eq_true, decide_eq_true_eq,
      Bool.not_eq_true'] at here
    exact here
  · rename_i other
    cases label : s.labelOf input with
    | deliver info => exact absurd label (other info)
    | _ => trivial

theorem not_found_is_own_iff_sample :
    Always (step plainDeps plainBlocks) (fun s => s.desk.ErrorsOwn) (sampleService .empty)
      ownFails := by
  refine (not_found_is_own_iff plainDeps plainBlocks _ _ _ _ _ ownFails
    (meets_of_passes freshIds_sound ?_)).mpr (meets_of_passes ownFailure_sound ?_)
  · show passes (step plainDeps plainBlocks) freshIds (sampleService .empty) ownFails = true
    decide +kernel
  · show passes (step plainDeps plainBlocks) ownFailure (sampleService .empty) ownFails = true
    decide +kernel

/-- Two requests for one CID, the second with one more peer connected; the first
query fails. -/
def earlierFails : List Input :=
  [connect 1 ⟨"12D3KooWA"⟩, .command (.getBitswap sampleRoot.1 .get 1) 1,
    connect 2 ⟨"12D3KooWB"⟩, .command (.getBitswap sampleRoot.1 .get 2) 2,
    .bitswap (.complete 1 (.error "block not found")), .deliver quietEnv]

theorem earlierFails_fresh :
    Meets (step plainDeps plainBlocks) FreshIds (sampleService .empty) earlierFails :=
  meets_of_passes freshIds_sound
    (show passes (step plainDeps plainBlocks) freshIds (sampleService .empty) earlierFails = true
      by decide +kernel)

/-- The failure of the first query is sent to the second sender too, whose own query
is still running. -/
theorem earlier_failure_fails_a_later_request :
    Meets (step plainDeps plainBlocks) FreshIds (sampleService .empty) earlierFails ∧
    ∃ s, exec (step plainDeps plainBlocks) (sampleService .empty) earlierFails = some s ∧
      (s.behaviour.queries 2).isSome = true ∧ ¬ s.desk.ErrorsOwn := by
  have replies : (exec (step plainDeps plainBlocks) (sampleService .empty) earlierFails).map
      (fun s => ((s.behaviour.queries 2).isSome, s.history.replies.map fun a =>
        (a.sender, a.result.isOk, a.completed.map BitswapInfo.queryId))) =
      some (true, [(2, false, [1]), (1, false, [1])]) := by decide +kernel
  have requests : (exec (step plainDeps plainBlocks) (sampleService .empty) earlierFails).map
      (fun s => s.history.requests.map fun r => (r.sender, r.queryId)) =
      some [(2, some 2), (1, some 1)] := by decide +kernel
  obtain ⟨s, run, facts⟩ := Option.map_eq_some_iff.mp replies
  rw [run, Option.map_some, Option.some.injEq] at requests
  simp only [Prod.mk.injEq] at facts
  refine ⟨earlierFails_fresh, s, run, facts.1, ?_⟩
  intro errors
  obtain ⟨a, listed, facts⟩ : ∃ a ∈ s.history.replies,
      (a.sender, a.result.isOk, a.completed.map BitswapInfo.queryId) = (2, false, [1]) := by
    rw [← List.mem_map, facts.2]
    simp
  obtain ⟨r, member, own⟩ : ∃ r ∈ s.history.requests, (r.sender, r.queryId) = (2, some 2) := by
    rw [← List.mem_map, requests]
    simp
  simp only [Prod.mk.injEq] at facts own
  obtain ⟨sender, failed, completed⟩ := facts
  have error : ∃ e, a.result = .error e := by
    cases result : a.result with
    | ok u => simp [result, Except.isOk, Except.toBool] at failed
    | error e => exact ⟨e, rfl⟩
  obtain ⟨done, among, id, -⟩ := errors a listed error r member (own.1.trans sender.symm) 2 own.2
  have only : done.queryId ∈ a.completed.map BitswapInfo.queryId := List.mem_map_of_mem among
  rw [completed, id] at only
  simp at only

end UrsaService

end Ursa.Network

/-
# Network.Responses — peer responses reach their own requester, once

A `SendRequest` command files the channel of its caller under the id the request gets;
a response and an outbound failure carry such an id back.  Inbound requests carry ids of
the same type, and so do the events about them, but those are never looked up.

`traffic` is what a run says about requests to peers, in the vocabulary of
`Theory.Correlation`; the service is a table of that theory (`Shows`), so the theory's
account of any history with fresh ids is the account of any run.
-/
import Ursa.Theory.Correlation
import Ursa.Network.Indexing

namespace Ursa.Network

set_option autoImplicit false

open Ursa.Theory
open Ursa.Theory.Run
open Ursa.Theory.Correlation (Event Table)
open Ursa.IndexProvider

/-- What a requester is sent: the response, or why there is none. -/
abbrev PeerAnswer := Except String UrsaExchangeResponse

/-- What an input says about the requests sent to peers. -/
def Input.traffic : Input → List (Event RequestId SenderId PeerAnswer)
  | .command (.sendRequest _ _ channel) id => [.sent id channel]
  | .requestResponse (.response _ id response) => [.answered id (.ok response)]
  | .requestResponse (.outboundFailure _ id error) => [.answered id (.error error)]
  | _ => []

/-- The requests sent in a run and the answers that came, in order. -/
def traffic (inputs : List Input) : List (Event RequestId SenderId PeerAnswer) :=
  inputs.flatMap Input.traffic

namespace UrsaService

variable {K : Type} {deps : Deps K} {B : Blocks} {s t : UrsaService K} {input : Input}

/-- The channels that wait, and what has been sent to whom. -/
structure Shows (s : UrsaService K) (table : Table RequestId SenderId PeerAnswer) : Prop where
  pending : s.behaviour.pendingResponses = table.pending
  responses : s.history.responses = table.replies.map Prod.snd

variable {table : Table RequestId SenderId PeerAnswer}

/-- A step that neither files a channel nor answers one. -/
structure SameChannels (s t : UrsaService K) : Prop where
  pending : t.behaviour.pendingResponses = s.behaviour.pendingResponses
  responses : t.history.responses = s.history.responses

theorem Shows.same (shown : s.Shows table) (same : SameChannels s t) : t.Shows table :=
  ⟨same.pending.trans shown.pending, same.responses.trans shown.responses⟩

/-- The events of the loop leave the channels of peer requests alone. -/
theorem onEvent_channels {env : DeliverEnv} {event : BehaviourEvent}
    (taken : onEvent deps B s env event = some t) : SameChannels s t := by
  cases event with
  | bitswap info =>
      obtain ⟨_, _, _, rfl⟩ := onBitswap_frame taken
      exact ⟨rfl, rfl⟩
  | startPublish address =>
      obtain ⟨_, _, _, rfl⟩ := onStartPublish_frame taken
      exact ⟨rfl, rfl⟩
  | natStatusChanged old new =>
      cases taken
      rcases onNatStatusChanged_cases s env old new with ⟨_, -, same⟩ | ⟨-, _, _, same⟩
      · rw [same]
        exact ⟨rfl, rfl⟩
      · rw [same]
        exact ⟨rfl, rfl⟩
  | gossipMessage peer topic message =>
      cases taken
      split <;> exact ⟨rfl, rfl⟩
  | _ =>
      cases taken
      exact ⟨rfl, rfl⟩

theorem onCommand_shows (shown : s.Shows table) (command : UrsaCommand) (id : Nat) :
    (s.onCommand id command).Shows ((Input.command command id).traffic.foldl Table.step table) := by
  cases command with
  | sendRequest peer request channel =>
      refine ⟨?_, shown.responses⟩
      show Function.update s.behaviour.pendingResponses id (some channel) =
        Function.update table.pending id (some channel)
      rw [shown.pending]
  | getBitswap cid query sender =>
      refine shown.same ?_
      simp only [onCommand]
      split
      · exact ⟨rfl, rfl⟩
      · cases query <;> exact ⟨rfl, rfl⟩
  | index cids sender =>
      refine shown.same ?_
      cases cids with
      | nil => exact ⟨rfl, rfl⟩
      | cons root cids =>
          refine ⟨?_, rfl⟩
          simp only [onCommand]
          split <;> rfl
  | _ => exact shown.same ⟨rfl, rfl⟩

/-- An answer takes out and answers the channel filed under its own id, if there is one. -/
theorem answerPending_shows (shown : s.Shows table) (id : RequestId) (answer : PeerAnswer) :
    (s.behaviour.answerPending id answer).1.pendingResponses =
        (table.step (.answered id answer)).pending ∧
      s.history.responses ++ (s.behaviour.answerPending id answer).2.toList =
        (table.step (.answered id answer)).replies.map Prod.snd := by
  simp only [Behaviour.answerPending, Table.step, shown.pending, shown.responses]
  cases table.pending id with
  | none => exact ⟨shown.pending, List.append_nil _⟩
  | some sender =>
      refine ⟨rfl, ?_⟩
      simp

theorem onRequestResponse_shows (shown : s.Shows table) (event : RequestResponseEvent) :
    (s.onRequestResponse event).Shows
      ((Input.requestResponse event).traffic.foldl Table.step table) := by
  cases event with
  | response peer id response =>
      obtain ⟨pending, responses⟩ := answerPending_shows shown id (.ok response)
      exact ⟨pending, responses⟩
  | outboundFailure peer id error =>
      obtain ⟨pending, responses⟩ := answerPending_shows shown id (.error error)
      exact ⟨pending, responses⟩
  | _ => exact shown.same ⟨rfl, List.append_nil _⟩

/-- **One step is the events its input stands for.** -/
theorem Shows.step (shown : s.Shows table) (taken : s.step deps B input = some t) :
    t.Shows (input.traffic.foldl Table.step table) := by
  cases turn_of_step taken with
  | command command id => exact onCommand_shows shown command id
  | requestResponse event => exact onRequestResponse_shows shown event
  | deliver env event later _ first handled =>
      obtain ⟨pending, responses⟩ := onEvent_channels handled
      exact shown.same ⟨pending, responses⟩
  | bitswap event =>
      refine shown.same ⟨?_, rfl⟩
      cases event with
      | progress id missing => rfl
      | complete id result =>
          simp only [onBitswapEvent, Behaviour.handleBitswap]
          split <;> rfl
  | autonat old new known => exact shown.same ⟨rfl, rfl⟩
  | autonatSilent address new known changes => exact shown.same ⟨rfl, rfl⟩
  | insert cid data => exact shown.same ⟨rfl, rfl⟩
  | swarm _ isSwarm opened used discovery pushed raised =>
      have nothing : input.traffic = [] := by
        cases input with
        | command command id => cases isSwarm
        | requestResponse event => cases isSwarm
        | _ => rfl
      rw [nothing]
      exact shown.same ⟨rfl, rfl⟩

theorem shows_new (peerId : PeerId) (config : NetworkConfig) (store : Store)
    (indexProvider : Provider K) (blockstore : Cid → Option Ipld) :
    (new peerId config store indexProvider blockstore).Shows Table.empty := ⟨rfl, rfl⟩

/-- **Peer responses reach their own requester, once.**  In every run whose requests get
fresh ids, whatever ids the events carry: a channel waits exactly if its request has had
no answer yet; what was sent to a channel is the first response or failure that carried
the id of its own request, and every such answer was sent; and no channel is sent more
than the requests made with it, which is one for a one-shot channel. -/
theorem responses_reach_their_requester (deps : Deps K) (B : Blocks) (peerId : PeerId)
    (config : NetworkConfig) (store : Store) (indexProvider : Provider K)
    (blockstore : Cid → Option Ipld) (inputs : List Input) (s : UrsaService K)
    (fresh : Correlation.Fresh (traffic inputs))
    (run : exec (step deps B) (new peerId config store indexProvider blockstore) inputs = some s) :
    (∀ id sender, s.behaviour.pendingResponses id = some sender ↔
      Correlation.Open (traffic inputs) id sender) ∧
    (∀ sender answer, (sender, answer) ∈ s.history.responses ↔
      ∃ id, Correlation.Answered (traffic inputs) id sender answer) ∧
    (∀ sender, (s.history.responses.filter fun r => r.1 = sender).length ≤
      ((traffic inputs).filterMap (Event.sentBy sender)).length) := by
  obtain ⟨pending, responses⟩ : s.Shows (Table.after (traffic inputs)) :=
    exec_simulates (fun _ _ _ _ matched taken => matched.step taken)
      (shows_new peerId config store indexProvider blockstore) run
  rw [pending, responses]
  refine ⟨Correlation.pending_iff fresh, ?_, ?_⟩
  · intro sender answer
    constructor
    · intro member
      obtain ⟨⟨id, reply⟩, replied, rfl⟩ := List.mem_map.mp member
      exact ⟨id, (Correlation.mem_replies_iff fresh id _ _).mp replied⟩
    · rintro ⟨id, answered⟩
      have replied := (Correlation.mem_replies_iff fresh id sender answer).mpr answered
      exact List.mem_map.mpr ⟨_, replied, rfl⟩
  · intro sender
    rw [List.filter_map, List.length_map]
    exact Correlation.count_replies_le fresh sender

/-- Two requests are out.  Inbound traffic uses the same ids, the second request fails,
the first is answered, a late response and one with an unknown id come, and a third
request goes out. -/
def answersOutOfOrder : List Input :=
  let peer : PeerId := ⟨"peer"⟩
  let request : UrsaExchangeRequest := ⟨.carRequest "bafy"⟩
  let response : UrsaExchangeResponse := ⟨.carResponse ⟨"bafy", [1, 2]⟩⟩
  [.command (.sendRequest peer request 10) 1, .command (.sendRequest peer request 20) 2,
    .requestResponse (.request peer 1 request 7),
    .requestResponse (.inboundFailure peer 1 "timeout"), .requestResponse (.responseSent peer 2),
    .requestResponse (.outboundFailure peer 2 "connection closed"),
    .requestResponse (.response peer 1 response), .requestResponse (.response peer 2 response),
    .requestResponse (.response peer 9 response), .command (.sendRequest peer request 30) 3]

theorem responses_reach_their_requester_sample :
    ∃ s, exec (step plainDeps plainBlocks) (sampleService sampleStore) answersOutOfOrder =
        some s ∧
      s.history.responses =
        [(20, .error "connection closed"), (10, .ok ⟨.carResponse ⟨"bafy", [1, 2]⟩⟩)] ∧
      Correlation.Open (traffic answersOutOfOrder) 3 30 ∧
      ∃ id, Correlation.Answered (traffic answersOutOfOrder) id 20 (.error "connection closed") := by
  have evaluated : (exec (step plainDeps plainBlocks) (sampleService sampleStore)
      answersOutOfOrder).map (fun s => (s.behaviour.pendingResponses 3, s.history.responses)) =
        some (some 30,
          [(20, .error "connection closed"), (10, .ok ⟨.carResponse ⟨"bafy", [1, 2]⟩⟩)]) := by
    decide +kernel
  obtain ⟨s, run, facts⟩ := Option.map_eq_some_iff.mp evaluated
  obtain ⟨waiting, responses⟩ := Prod.mk.inj facts
  have fresh : Correlation.Fresh (traffic answersOutOfOrder) := by
    show ((traffic answersOutOfOrder).filterMap Event.sentId).Nodup
    decide +kernel
  obtain ⟨pending, replied, -⟩ := responses_reach_their_requester plainDeps plainBlocks _ _ _ _ _
    answersOutOfOrder s fresh run
  refine ⟨s, run, responses, (pending 3 30).mp waiting, (replied 20 _).mp ?_⟩
  rw [responses]
  exact List.mem_cons_self

end UrsaService

end Ursa.Network

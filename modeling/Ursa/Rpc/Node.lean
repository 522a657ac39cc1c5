/-
# Rpc.Node — single-block reads while everything else goes on

`NodeNetworkInterface::get` looks for a CID in the store, asks the service loop for it
and waits for the reply, and then reads.  Between these steps the loop takes other
commands, other clients ask and upload, and bitswap stores blocks.

`Node` is the service loop with the command channel in front of it and any number of
calls of `get`, each at one of its awaits (`GetStage`).  `Rpc.Api` has the same call
without the interleaving (`get`).

The invariant (`Node.Inv`) follows the channel of a waiting call: whether it lies in a
command that was not taken yet or among the senders that wait in the loop, it is there
for the CID of its own call; and a reply of success is only sent for a CID that is
stored.  Nothing is deleted, so the block is still there when the call reads it.
-/
import Ursa.Network.Requests
import Ursa.Rpc.Api

namespace Ursa.Rpc

set_option autoImplicit false

open Ursa.Theory (Outcome)
open Ursa.Theory.Run
open Ursa.Network
open Ursa.IndexProvider (Deps Provider plainDeps)

/-! ## The node -/

/-- Where a call of `get` stands. -/
inductive GetStage where
  /-- Before the look at the store. -/
  | checking
  /-- The CID was not there. -/
  | sending
  /-- The command is sent. -/
  | waiting (receiver : SenderId)
  /-- The CID was there, or the reply was a success. -/
  | reading
  | returned (result : Outcome ApiError (Option Bytes))
  deriving DecidableEq

structure GetCall where
  cid : Cid
  stage : GetStage
  deriving DecidableEq

structure Node (K : Type) where
  service : UrsaService K
  /-- The command channel: what was sent and not yet taken by the loop, oldest first. -/
  commands : List UrsaCommand
  /-- How many one-shot channels have been made; the next one gets this number. -/
  channels : Nat
  calls : List GetCall

inductive NodeInput where
  /-- A turn of the loop that takes no command, or something in the swarm. -/
  | service (input : Input)
  /-- The loop takes the next command; `id` is the id of what it starts, if anything. -/
  | take (id : Nat)
  /-- Another client sends a command, on a channel of its own. -/
  | client (command : UrsaCommand)
  /-- An upload writes a block, whether the loop runs or not. -/
  | insert (cid : Cid) (data : Bytes)
  /-- `get` is called. -/
  | get (cid : Cid)
  /-- A call takes its next step. -/
  | resume (call : Nat)

/-- The same command with another reply channel. -/
def onChannel (channel : SenderId) : UrsaCommand → UrsaCommand
  | .getBitswap cid query _ => .getBitswap cid query channel
  | .put cid _ => .put cid channel
  | .getPeers _ => .getPeers channel
  | .index cids _ => .index cids channel
  | .sendRequest peer request _ => .sendRequest peer request channel
  | .sendResponse requestId response _ => .sendResponse requestId response channel
  | .gossipsubMessage topic message => .gossipsubMessage topic message

namespace Node

variable {K : Type}

def new (service : UrsaService K) : Node K :=
  { service, commands := [], channels := 0, calls := [] }

/-- What a call does next and what it leaves behind; `none` while it has to wait. -/
def proceed (n : Node K) (call : GetCall) : Option (GetStage × Node K) :=
  match call.stage with
  | .checking => some (if n.service.store.has call.cid then .reading else .sending, n)
  | .sending =>
      if n.service.status = .running then
        some (.waiting n.channels,
          { n with
            commands := n.commands ++ [.getBitswap call.cid .get n.channels]
            channels := n.channels + 1 })
      else some (.returned (.err (.send "sending into a closed channel")), n)
  | .waiting receiver =>
      match n.service.history.replies.reverse.find? (fun a => a.sender = receiver) with
      | some a =>
          match a.result with
          | .ok _ => some (.reading, n)
          | .error e => some (.returned (.err (.bitswapFailed e)), n)
      -- a loop that ends drops the senders it holds
      | none =>
          if n.service.status = .running then none else some (.returned (.err .canceled), n)
  | .reading => some (.returned (.ok (n.service.store.get call.cid)), n)
  | .returned _ => none

variable (deps : Deps K) (B : Blocks)

def step (n : Node K) : NodeInput → Option (Node K)
  | .service (.command _ _) => none
  | .service input => (n.service.step deps B input).map fun service => { n with service }
  | .take id =>
      match n.commands with
      | [] => none
      | command :: commands =>
          (n.service.step deps B (.command command id)).map fun service =>
            { n with service, commands }
  | .client command =>
      some { n with
        commands := n.commands ++ [onChannel n.channels command], channels := n.channels + 1 }
  | .insert cid data =>
      some { n with service := { n.service with store := n.service.store.put cid data } }
  | .get cid => some { n with calls := n.calls ++ [⟨cid, .checking⟩] }
  | .resume i =>
      match n.calls[i]? with
      | some call =>
          (n.proceed call).map fun (stage, n) => { n with calls := n.calls.set i { call with stage } }
      | none => none

variable {deps B} {n n' : Node K} {input : NodeInput}

/-! ## The channel of a waiting call -/

/-- Channel `x` has been made, and if a call waits on it, it waits for this CID. -/
def Holds (n : Node K) (cid : Cid) (x : SenderId) : Prop :=
  x < n.channels ∧ ∀ call ∈ n.calls, call.stage = .waiting x → call.cid = cid

/-- A call that is to read will find its block; one that has returned found it or failed. -/
def Sound (n : Node K) (cid : Cid) : GetStage → Prop
  | .waiting x => x < n.channels
  | .reading => n.service.store.contains cid = true
  | .returned result => (∃ data, result = .ok (some data)) ∨ ∃ e, result = .err e
  | .checking => True
  | .sending => True

structure Inv (n : Node K) : Prop where
  keyed : n.service.desk.Keyed
  sent : ∀ cid query x, .getBitswap cid query x ∈ n.commands → n.Holds cid x
  waits : ∀ cid, ∀ x ∈ n.service.desk.waiting cid, n.Holds cid x
  replied : ∀ a ∈ n.service.desk.replies, a.sender < n.channels ∧
    (a.result = .ok () → ∀ call ∈ n.calls, call.stage = .waiting a.sender →
      n.service.store.contains call.cid = true)
  calls : ∀ call ∈ n.calls, n.Sound call.cid call.stage

theorem inv_new (peerId : PeerId) (config : NetworkConfig) (store : Store)
    (indexProvider : Provider K) (blockstore : Cid → Option Ipld) :
    (new (UrsaService.new peerId config store indexProvider blockstore)).Inv where
  keyed := (UrsaService.deskInv_new peerId config store indexProvider blockstore).keyed
  sent _ _ _ impossible := absurd impossible List.not_mem_nil
  waits _ _ impossible := absurd impossible List.not_mem_nil
  replied _ impossible := absurd impossible List.not_mem_nil
  calls _ impossible := absurd impossible List.not_mem_nil

/-- More channels and more blocks do a call no harm. -/
theorem Sound.mono {cid : Cid} {stage : GetStage} (sound : n.Sound cid stage)
    (channels : n.channels ≤ n'.channels)
    (stored : n.service.store.contains cid = true → n'.service.store.contains cid = true) :
    n'.Sound cid stage := by
  cases stage with
  | waiting x => exact Nat.lt_of_lt_of_le sound channels
  | reading => exact stored sound
  | returned result => exact sound
  | checking => trivial
  | sending => trivial

/-! ## What each step does to it -/

/-- **A step of the desk**: the loop answers who waits, and only for CIDs that are stored. -/
theorem Inv.desk (inv : n.Inv) {service : UrsaService K} {label : Desk.Label}
    {commands : List UrsaCommand} (step : Desk.Step n.service.desk label service.desk)
    (asked : ∀ r, label = .request r → n.Holds r.cid r.sender) (left : commands ⊆ n.commands) :
    ({ n with service, commands } : Node K).Inv where
  keyed := inv.keyed.step step
  sent cid query x member := inv.sent cid query x (left member)
  waits cid x waits := by
    rcases step.waits waits with old | ⟨r, isRequest, rfl, rfl⟩
    · exact inv.waits cid x old
    · exact asked r isRequest
  replied a replied := by
    rcases step.replies replied with old | ⟨cid, waited, stored⟩ | ⟨r, isRequest, own, refused⟩
    · obtain ⟨made, stored⟩ := inv.replied a old
      refine ⟨made, ?_⟩
      intro ok call listed waiting
      exact step.contains (stored ok call listed waiting)
    · obtain ⟨made, own⟩ := inv.waits cid a.sender waited
      refine ⟨made, ?_⟩
      intro ok call listed waiting
      rw [own call listed waiting]
      exact stored ok
    · refine ⟨own ▸ (asked r isRequest).1, ?_⟩
      intro ok
      rw [refused] at ok
      cases ok
  calls call listed := (inv.calls call listed).mono (Nat.le_refl _) step.contains

/-- A step of the clients: a call that now waits, waits on a channel just made. -/
structure Moves (n n' : Node K) : Prop where
  service : n'.service = n.service
  channels : n.channels ≤ n'.channels
  calls : ∀ call ∈ n'.calls, call ∈ n.calls ∨
    (n'.Sound call.cid call.stage ∧ ∀ x, call.stage = .waiting x → n.channels ≤ x)

theorem Holds.moves {cid : Cid} {x : SenderId} (holds : n.Holds cid x) (moves : Moves n n') :
    n'.Holds cid x := by
  refine ⟨Nat.lt_of_lt_of_le holds.1 moves.channels, ?_⟩
  intro call listed waiting
  rcases moves.calls call listed with old | ⟨-, new⟩
  · exact holds.2 call old waiting
  · exact absurd (new x waiting) (Nat.not_le_of_lt holds.1)

/-- **A step of the clients**: what they send is on channels of their own. -/
theorem Inv.moves (inv : n.Inv) (moves : Moves n n')
    (sent : ∀ cid query x, .getBitswap cid query x ∈ n'.commands →
      .getBitswap cid query x ∈ n.commands ∨ n'.Holds cid x) : n'.Inv where
  keyed := by
    rw [moves.service]
    exact inv.keyed
  sent cid query x member := by
    rcases sent cid query x member with old | holds
    · exact (inv.sent cid query x old).moves moves
    · exact holds
  waits cid x waits := by
    rw [moves.service] at waits
    exact (inv.waits cid x waits).moves moves
  replied a replied := by
    rw [moves.service] at replied ⊢
    obtain ⟨made, stored⟩ := inv.replied a replied
    refine ⟨Nat.lt_of_lt_of_le made moves.channels, ?_⟩
    intro ok call listed waiting
    rcases moves.calls call listed with old | ⟨-, new⟩
    · exact stored ok call old waiting
    · exact absurd (new a.sender waiting) (Nat.not_le_of_lt made)
  calls call listed := by
    rcases moves.calls call listed with old | ⟨sound, -⟩
    · refine (inv.calls call old).mono moves.channels ?_
      rw [moves.service]
      exact id
    · exact sound

/-- No call waits on a channel that has not been made. -/
theorem Inv.unused (inv : n.Inv) {call : GetCall} (listed : call ∈ n.calls) {x : SenderId}
    (unmade : n.channels ≤ x) : call.stage ≠ .waiting x := by
  intro waiting
  have made := inv.calls call listed
  rw [waiting] at made
  exact absurd made (Nat.not_lt_of_le unmade)

theorem Inv.client (inv : n.Inv) (command : UrsaCommand) :
    ({ n with
      commands := n.commands ++ [onChannel n.channels command]
      channels := n.channels + 1 } : Node K).Inv := by
  refine inv.moves ⟨rfl, Nat.le_succ _, fun _ => .inl⟩ ?_
  intro cid query x member
  rcases List.mem_append.mp member with old | new
  · exact .inl old
  · have isGet := List.mem_singleton.mp new
    cases command with
    | getBitswap cid' query' x' =>
        cases isGet
        refine .inr ⟨Nat.lt_succ_self _, ?_⟩
        intro call listed waiting
        exact absurd waiting (inv.unused listed (Nat.le_refl _))
    | _ => cases isGet

/-- A call that goes on without sending anything. -/
theorem Inv.set (inv : n.Inv) {call : GetCall} {stage : GetStage} (i : Nat)
    (sound : n.Sound call.cid stage) (notWaiting : ∀ x, stage ≠ .waiting x) :
    ({ n with calls := n.calls.set i { call with stage } } : Node K).Inv := by
  refine inv.moves ⟨rfl, Nat.le_refl _, ?_⟩ fun _ _ _ => .inl
  intro other listed
  rcases List.mem_or_eq_of_mem_set listed with old | rfl
  · exact .inl old
  · exact .inr ⟨sound, fun x waiting => absurd waiting (notWaiting x)⟩

/-- A call that asks the loop. -/
theorem Inv.ask (inv : n.Inv) (cid : Cid) (i : Nat) :
    ({ n with
      commands := n.commands ++ [.getBitswap cid .get n.channels]
      channels := n.channels + 1
      calls := n.calls.set i ⟨cid, .waiting n.channels⟩ } : Node K).Inv := by
  refine inv.moves ⟨rfl, Nat.le_succ _, ?_⟩ ?_
  · intro other listed
    rcases List.mem_or_eq_of_mem_set listed with old | rfl
    · exact .inl old
    · refine .inr ⟨Nat.lt_succ_self _, ?_⟩
      intro x waiting
      cases waiting
      exact Nat.le_refl _
  · intro cid' query x member
    rcases List.mem_append.mp member with old | new
    · exact .inl old
    · cases List.mem_singleton.mp new
      refine .inr ⟨Nat.lt_succ_self _, ?_⟩
      intro call listed waiting
      rcases List.mem_or_eq_of_mem_set listed with old | rfl
      · exact absurd waiting (inv.unused old (Nat.le_refl _))
      · rfl

/-- **A call takes its next step.** -/
theorem Inv.proceed (inv : n.Inv) {call : GetCall} {i : Nat} (listed : n.calls[i]? = some call)
    {stage : GetStage} (taken : n.proceed call = some (stage, n')) :
    ({ n' with calls := n'.calls.set i { call with stage } } : Node K).Inv := by
  obtain ⟨cid, old⟩ := call
  have member := List.mem_of_getElem? listed
  cases old with
  | checking =>
      cases taken
      apply inv.set i
      · by_cases has : n.service.store.has cid = true
        · rw [if_pos has]
          exact has
        · rw [if_neg has]
          trivial
      · intro x
        split <;> simp
  | sending =>
      simp only [Node.proceed] at taken
      split at taken
      · cases taken
        exact inv.ask cid i
      · cases taken
        exact inv.set i (.inr ⟨_, rfl⟩) (by simp)
  | waiting receiver =>
      simp only [Node.proceed] at taken
      split at taken
      · rename_i a found
        have replied : a ∈ n.service.desk.replies :=
          List.mem_reverse.mp (List.mem_of_find?_eq_some found)
        have own : a.sender = receiver := by simpa using List.find?_some found
        split at taken
        · rename_i ok
          cases taken
          refine inv.set i ?_ (by simp)
          exact (inv.replied a replied).2 ok _ member (by rw [own])
        · cases taken
          exact inv.set i (.inr ⟨_, rfl⟩) (by simp)
      · split at taken
        · cases taken
        · cases taken
          exact inv.set i (.inr ⟨_, rfl⟩) (by simp)
  | reading =>
      cases taken
      obtain ⟨data, stored⟩ := (n.service.store.contains_iff cid).mp (inv.calls _ member)
      exact inv.set i (.inl ⟨data, congrArg Outcome.ok stored⟩) (by simp)
  | returned result => cases taken

/-- Only a command asks for anything. -/
theorem labelOf_ne_request {s : UrsaService K} {input : Input}
    (other : ∀ command id, input ≠ .command command id) (r : Network.Request) :
    s.labelOf input ≠ .request r := by
  cases input with
  | command command id => exact absurd rfl (other command id)
  | deliver env =>
      simp only [UrsaService.labelOf]
      split <;> simp
  | bitswap event =>
      cases event with
      | progress id missing => simp [UrsaService.labelOf]
      | complete id result =>
          simp only [UrsaService.labelOf]
          split <;> simp
  | _ => simp [UrsaService.labelOf]

/-- A command taken by the loop asks for what it says. -/
theorem request_of_command {s : UrsaService K} {command : UrsaCommand} {id : Nat}
    {r : Network.Request} (isRequest : s.labelOf (.command command id) = .request r) :
    ∃ query, command = .getBitswap r.cid query r.sender := by
  cases command with
  | getBitswap cid query sender =>
      cases isRequest
      exact ⟨query, rfl⟩
  | _ => cases isRequest

/-- **Every step keeps the invariant.** -/
theorem Inv.step (inv : n.Inv) (taken : n.step deps B input = some n') : n'.Inv := by
  cases input with
  | service input =>
      have other : ∀ command id, input ≠ .command command id := by
        rintro command id rfl
        cases taken
      have served : (n.service.step deps B input).map
          (fun service => { n with service }) = some n' := by
        cases input with
        | command command id => exact absurd rfl (other command id)
        | _ => exact taken
      obtain ⟨service, moved, rfl⟩ := Option.map_eq_some_iff.mp served
      refine inv.desk (UrsaService.desk_step inv.keyed moved) ?_ (List.Subset.refl _)
      intro r isRequest
      exact absurd isRequest (labelOf_ne_request other r)
  | take id =>
      simp only [Node.step] at taken
      split at taken
      · cases taken
      · rename_i command commands queued
        obtain ⟨service, moved, rfl⟩ := Option.map_eq_some_iff.mp taken
        refine inv.desk (UrsaService.desk_step inv.keyed moved) ?_ ?_
        · intro r isRequest
          obtain ⟨query, rfl⟩ := request_of_command isRequest
          exact inv.sent r.cid query r.sender (by simp [queued])
        · rw [queued]
          exact List.subset_cons_self _ _
  | client command =>
      cases taken
      exact inv.client command
  | insert cid data =>
      cases taken
      refine inv.desk (.insert cid data) ?_ (List.Subset.refl _)
      intro r isRequest
      cases isRequest
  | get cid =>
      cases taken
      refine inv.moves ⟨rfl, Nat.le_refl _, ?_⟩ fun _ _ _ => .inl
      intro call listed
      rcases List.mem_append.mp listed with old | new
      · exact .inl old
      · cases List.mem_singleton.mp new
        exact .inr ⟨trivial, by simp⟩
  | resume i =>
      simp only [Node.step] at taken
      split at taken
      · rename_i call listed
        obtain ⟨⟨stage, n₁⟩, proceeded, rfl⟩ := Option.map_eq_some_iff.mp taken
        exact inv.proceed listed proceeded
      · cases taken

/-! ## What a call returns -/

/-- A call that goes on leaves the service and the calls as they are; if it returns a
value, that is what the store holds. -/
theorem proceed_spec {call : GetCall} {stage : GetStage}
    (taken : n.proceed call = some (stage, n')) :
    n'.service = n.service ∧ n'.calls = n.calls ∧
      ∀ value, stage = .returned (.ok value) → n.service.store.get call.cid = value := by
  obtain ⟨cid, old⟩ := call
  cases old with
  | checking =>
      cases taken
      refine ⟨rfl, rfl, ?_⟩
      intro value returned
      split at returned <;> cases returned
  | sending =>
      simp only [Node.proceed] at taken
      split at taken <;> cases taken <;> exact ⟨rfl, rfl, by simp⟩
  | waiting receiver =>
      simp only [Node.proceed] at taken
      split at taken
      · split at taken <;> cases taken <;> exact ⟨rfl, rfl, by simp⟩
      · split at taken <;> cases taken
        exact ⟨rfl, rfl, by simp⟩
  | reading =>
      cases taken
      refine ⟨rfl, rfl, ?_⟩
      intro value returned
      cases returned
      rfl
  | returned result => cases taken

/-- A call that has a value had it before, or the store holds it now. -/
theorem value_is_stored (taken : n.step deps B input = some n') {i : Nat} {cid : Cid}
    {value : Option Bytes} (now : n'.calls[i]? = some ⟨cid, .returned (.ok value)⟩) :
    n.calls[i]? = n'.calls[i]? ∨ n'.service.store.get cid = value := by
  cases input with
  | service input =>
      left
      cases input with
      | command command id => cases taken
      | _ =>
          obtain ⟨service, -, rfl⟩ := Option.map_eq_some_iff.mp taken
          rfl
  | take id =>
      simp only [Node.step] at taken
      split at taken
      · cases taken
      · obtain ⟨service, -, rfl⟩ := Option.map_eq_some_iff.mp taken
        exact .inl rfl
  | client command =>
      cases taken
      exact .inl rfl
  | insert cid data =>
      cases taken
      exact .inl rfl
  | get cid' =>
      cases taken
      left
      by_cases old : i < n.calls.length
      · exact (List.getElem?_append_left old).symm
      · -- the new call has not returned
        rw [List.getElem?_append_right (Nat.le_of_not_lt old)] at now
        have new := List.mem_of_getElem? now
        cases List.mem_singleton.mp new
  | resume j =>
      simp only [Node.step] at taken
      split at taken
      · rename_i call listed
        obtain ⟨⟨stage, n₁⟩, proceeded, rfl⟩ := Option.map_eq_some_iff.mp taken
        obtain ⟨service, calls, stored⟩ := proceed_spec proceeded
        by_cases same : j = i
        · right
          subst same
          have inside : j < n₁.calls.length := by
            rw [calls]
            exact (List.getElem?_eq_some_iff.mp listed).1
          rw [List.getElem?_set_self inside] at now
          cases now
          rw [service]
          exact stored value rfl
        · left
          rw [List.getElem?_set_ne same, calls]
      · cases taken

/-- The handler only panics on a call that returns nothing, or does not return. -/
theorem getCidHandler_ne_panic {fromStr : String → Option Cid}
    {result : Outcome ApiError (Option Bytes)}
    (fine : (∃ data, result = .ok (some data)) ∨ ∃ e, result = .err e) (cid : String) (m : String) :
    getCidHandler fromStr (fun _ => result) cid ≠ .panic m := by
  unfold getCidHandler
  split
  · rcases fine with ⟨data, rfl⟩ | ⟨e, rfl⟩ <;> simp
  · simp

/-- **A successful single-block read has a block.**  In every run of the node, however
calls of `get`, uploads, other clients, bitswap and the loop interleave: no call has
returned `Ok(None)`, so the handler behind it does not panic; and when a call returns
`Ok(Some(data))`, the store holds `data` under its CID at that moment. -/
theorem get_never_returns_none (deps : Deps K) (B : Blocks) (peerId : PeerId)
    (config : NetworkConfig) (store : Store) (indexProvider : Provider K)
    (blockstore : Cid → Option Ipld) (inputs : List NodeInput) (n : Node K)
    (run : exec (step deps B)
      (new (UrsaService.new peerId config store indexProvider blockstore)) inputs = some n) :
    (∀ call ∈ n.calls, ∀ result, call.stage = .returned result → result ≠ .ok none ∧
      ∀ fromStr cid m, getCidHandler fromStr (fun _ => result) cid ≠ .panic m) ∧
    ∀ input n', n.step deps B input = some n' → ∀ (i : Nat) cid data,
      n'.calls[i]? = some ⟨cid, .returned (.ok (some data))⟩ →
        n.calls[i]? = n'.calls[i]? ∨ n'.service.store.get cid = some data := by
  have inv : n.Inv := exec_invariant (fun _ _ _ inv _ taken => inv.step taken)
    (inv_new peerId config store indexProvider blockstore)
    (meets_of_forall (fun _ _ _ => trivial) _) run
  constructor
  · intro call listed result returned
    have fine := inv.calls call listed
    rw [returned] at fine
    refine ⟨?_, fun fromStr => getCidHandler_ne_panic fine⟩
    rintro rfl
    rcases fine with ⟨data, impossible⟩ | ⟨e, impossible⟩ <;> cases impossible
  · intro input n' taken i cid data now
    exact value_is_stored taken now

/-- Two calls wait for one CID.  Its block is uploaded; the query of the first call fails,
and both are answered. -/
def twoReaders : List NodeInput :=
  [.service (UrsaService.connect 1 ⟨"12D3KooWA"⟩), .get UrsaService.sampleRoot.1,
    .get UrsaService.sampleRoot.1, .resume 0, .resume 1, .resume 0, .resume 1, .take 1, .take 2,
    .insert UrsaService.sampleRoot.1 UrsaService.sampleRoot.2,
    .service (.bitswap (.complete 1 (.error "timeout"))), .service (.deliver UrsaService.quietEnv),
    .resume 1, .resume 0, .resume 1]

theorem get_never_returns_none_sample :
    ∃ n, exec (step plainDeps plainBlocks) (new (UrsaService.sampleService Store.empty))
        twoReaders = some n ∧
      n.calls = [⟨UrsaService.sampleRoot.1, .reading⟩,
        ⟨UrsaService.sampleRoot.1, .returned (.ok (some UrsaService.sampleRoot.2))⟩] ∧
      ∀ call ∈ n.calls, call.stage ≠ .returned (.ok none) := by
  have evaluated : (exec (step plainDeps plainBlocks) (new (UrsaService.sampleService Store.empty))
      twoReaders).map Node.calls = some [⟨UrsaService.sampleRoot.1, .reading⟩,
        ⟨UrsaService.sampleRoot.1, .returned (.ok (some UrsaService.sampleRoot.2))⟩] := by
    decide +kernel
  obtain ⟨n, run, calls⟩ := Option.map_eq_some_iff.mp evaluated
  refine ⟨n, run, calls, ?_⟩
  intro call listed returned
  exact ((get_never_returns_none plainDeps plainBlocks _ _ _ _ _ twoReaders n run).1 call listed _
    returned).1 rfl

end Node

end Ursa.Rpc

/-
# Rpc.Http — files uploaded over HTTP and RPC, while everything else goes on

`put_car` (`ursa-rpc-server/src/api.rs`) writes the blocks of a CAR file one after the
other, sends their roots to the service loop and waits for the reply.  It is behind the
upload handler of the HTTP server (`http/routes/network.rs`) and behind `put_file_handler`.
Meanwhile the loop takes other commands, other files are uploaded, clients read, and
bitswap stores blocks.

`Server` is a node with any number of calls of `put_car`, each between two of its writes or
at one of its awaits.  The invariant (`Server.Inv`) says what a call has written, and that
a reply on the channel it waits on was sent for its own roots.

`acknowledged_files_stay_retrievable`: a file that a client was told is stored can be read
back from then on, whole and block by block, whatever becomes of the loop.
-/
import Ursa.Network.Catalogue
import Ursa.Rpc.Client
import Ursa.Rpc.Node
import Ursa.Rpc.Transfer

namespace Ursa.Rpc

set_option autoImplicit false

open Ursa.Theory (Outcome)
open Ursa.Theory.Run
open Ursa.Network
open Ursa.IndexProvider (Deps Provider plainDeps)

/-! ## The upload handler -/

/-- A part of a multipart body. -/
structure Field where
  contentType : Option String
  bytes : Except String Bytes

/-- What `next_field` returns first. -/
abbrev Multipart := Except String (Option Field)

/-- A text, sent as JSON. -/
def jsonResponse (status : Nat) (text : String) : HttpResponse :=
  { status, body := textOf (.string text) }

/-- The `Debug` texts of what `put_car` returns. -/
structure DebugTexts where
  cids : List Cid → String
  error : ApiError → String

/-- `upload_handler`.  Every response is an ordinary one; nothing is returned as an error. -/
def uploadHandler (debug : DebugTexts) (putCar : Bytes → Outcome ApiError (List Cid)) :
    Multipart → Outcome Empty HttpResponse
  | .error _ => .panic "called `Result::unwrap()` on an `Err` value"
  | .ok none => .ok (jsonResponse 400 "No files found")
  | .ok (some field) =>
      match field.contentType with
      | none => .panic "called `Option::unwrap()` on a `None` value"
      | some contentType =>
          if contentType = "application/vnd.curl.car" then
            match field.bytes with
            | .error _ => .panic "called `Result::unwrap()` on an `Err` value"
            | .ok data =>
                match putCar data with
                | .err e => .ok (jsonResponse 500 (debug.error e))
                | .ok res => .ok (jsonResponse 200 (debug.cids res))
                | .panic m => .panic m
                | .diverge => .diverge
          else
            .ok (jsonResponse 400 "Content type do not match. Only .car files can be uploaded")

/-- Status 200 means that `put_car` has returned the roots of the file. -/
theorem putCar_of_status {debug : DebugTexts} {putCar : Bytes → Outcome ApiError (List Cid)}
    {buf : Multipart} {response : HttpResponse}
    (answered : uploadHandler debug putCar buf = .ok response) (status : response.status = 200) :
    ∃ data cids, putCar data = .ok cids := by
  unfold uploadHandler at answered
  split at answered
  · cases answered
  · cases answered
    simp [jsonResponse] at status
  · split at answered
    · cases answered
    · split at answered
      · split at answered
        · cases answered
        · rename_i data _
          split at answered
          · cases answered
            simp [jsonResponse] at status
          · rename_i res returned
            exact ⟨data, res, returned⟩
          · cases answered
          · cases answered
      · cases answered
        simp [jsonResponse] at status

/-- A client was told that the file is stored: over HTTP by status 200, over RPC by a result. -/
inductive Acknowledged (result : Outcome ApiError (List Cid)) : Prop where
  | http (debug : DebugTexts) (buf : Multipart) (response : HttpResponse)
      (answered : uploadHandler debug (fun _ => result) buf = .ok response)
      (status : response.status = 200) : Acknowledged result
  | rpc (toString : Cid → String) (path text : String)
      (answered : putFileHandler toString (fun _ => result) path = .ok text) : Acknowledged result

theorem Acknowledged.returned {result : Outcome ApiError (List Cid)}
    (acknowledged : Acknowledged result) : ∃ cids, result = .ok cids := by
  cases acknowledged with
  | http debug buf response answered status =>
      obtain ⟨-, cids, returned⟩ := putCar_of_status answered status
      exact ⟨cids, returned⟩
  | rpc toString path text answered =>
      unfold putFileHandler at answered
      split at answered
      · cases answered
      · rename_i cids returned
        exact ⟨cids, returned⟩
      · cases answered
      · cases answered

/-! ## The server -/

/-- Where a call of `put_car` stands. -/
inductive PutStage where
  /-- `load_car`: the blocks it has still to write, and what it returns then. -/
  | loading (blocks : List (Cid × Bytes)) (loaded : Except String (List Cid))
  /-- The roots are sent. -/
  | waiting (receiver : SenderId) (cids : List Cid)
  | returned (result : Outcome ApiError (List Cid))

structure PutCall where
  file : Bytes
  stage : PutStage

structure Server (K : Type) where
  node : Node K
  puts : List PutCall

inductive ServerInput where
  | node (input : NodeInput)
  /-- `put_car` is called, on the file of an upload or at a path. -/
  | put (file : Bytes)
  /-- A call takes its next step. -/
  | resume (put : Nat)

namespace Server

variable {K : Type}

def new (node : Node K) : Server K := { node, puts := [] }

def store (s : Server K) : Store := s.node.service.store

/-- A block is written, whether the loop runs or not. -/
def write (n : Node K) (b : Cid × Bytes) : Node K :=
  { n with service := { n.service with store := n.service.store.put b.1 b.2 } }

/-- What a call does next, and the node after it; `none` while it has to wait. -/
def proceed (n : Node K) (call : PutCall) : Option (PutStage × Node K) :=
  match call.stage with
  | .loading (b :: blocks) loaded => some (.loading blocks loaded, write n b)
  | .loading [] (.error reason) => some (.returned (.err (.car reason)), n)
  | .loading [] (.ok cids) =>
      if n.service.status = .running then
        some (.waiting n.channels cids,
          { n with
            commands := n.commands ++ [.index cids n.channels]
            channels := n.channels + 1 })
      else some (.returned (.err (.send "sending into a closed channel")), n)
  | .waiting receiver cids =>
      if n.service.history.indexed.any (fun a => a.1 = receiver) then
        some (.returned (.ok cids), n)
      -- a loop that ends drops the senders it holds
      else if n.service.status = .running then none else some (.returned (.err .putFailed), n)
  | .returned _ => none

variable (deps : Deps K) (B : Blocks) (car : CarCodec)

def step (s : Server K) : ServerInput → Option (Server K)
  | .node input => (s.node.step deps B input).map fun node => { s with node }
  | .put file =>
      some { s with puts := s.puts ++ [⟨file, .loading (car.loadCar file).1 (car.loadCar file).2⟩] }
  | .resume i =>
      match s.puts[i]? with
      | some call =>
          (proceed s.node call).map fun (stage, node) =>
            { node, puts := s.puts.set i { call with stage } }
      | none => none

end Server

/-! ## What a step writes, sends and answers -/

section Steps

variable {K : Type} {deps : Deps K} {B : Blocks}

/-- What the later node has more of: every block is what its CID stands for, every new
command has a channel of its own, and every new reply is to a command that was sent. -/
structure Grows (is : Cid → Bytes → Prop) (n n' : Node K) : Prop where
  kept : ∀ cid data, n.service.store.get cid = some data → n'.service.store.get cid = some data
  clean : Clean is n'.service.store
  channels : n.channels ≤ n'.channels
  enqueued : n.service.history.enqueued ⊆ n'.service.history.enqueued
  sent : ∀ cids x, .index cids x ∈ n'.commands →
    .index cids x ∈ n.commands ∨ (n.channels ≤ x ∧ x < n'.channels)
  answered : ∀ a ∈ n'.service.history.indexed, a ∈ n.service.history.indexed ∨
    (.index a.2 a.1 ∈ n.commands ∧ ∃ root ∈ n'.service.history.enqueued, a.2.head? = some root)

variable {is : Cid → Bytes → Prop} {n n' : Node K}

/-- Writing a block. -/
theorem grows_write (single : Single is) (clean : Clean is n.service.store) {b : Cid × Bytes}
    (genuine : is b.1 b.2) : Grows is n (Server.write n b) where
  kept _ _ := clean.kept single genuine
  clean := clean.put genuine
  channels := le_rfl
  enqueued := List.Subset.refl _
  sent _ _ := .inl
  answered _ := .inl

/-- Sending a command on a new channel. -/
theorem grows_send (clean : Clean is n.service.store) (command : UrsaCommand)
    (own : ∀ cids x, command = .index cids x → x = n.channels) :
    Grows is n { n with commands := n.commands ++ [command], channels := n.channels + 1 } where
  kept _ _ := id
  clean := clean
  channels := Nat.le_succ _
  enqueued := List.Subset.refl _
  sent cids x member := by
    rcases List.mem_append.mp member with old | new
    · exact .inl old
    · obtain rfl := own cids x (List.mem_singleton.mp new).symm
      exact .inr ⟨le_rfl, Nat.lt_succ_self _⟩
  answered _ := .inl

theorem grows_refl (clean : Clean is n.service.store) : Grows is n n where
  kept _ _ := id
  clean := clean
  channels := le_rfl
  enqueued := List.Subset.refl _
  sent _ _ := .inl
  answered _ := .inl

/-- A turn of the loop. -/
theorem grows_service (single : Single is) (clean : Clean is n.service.store) {input : Input}
    {service : UrsaService K} (taken : n.service.step deps B input = some service)
    (genuine : input.Genuine is) {commands : List UrsaCommand} (left : commands ⊆ n.commands)
    (asked : ∀ cids x id, input = .command (.index cids x) id → .index cids x ∈ n.commands) :
    Grows is n { n with service, commands } := by
  have sent : ∀ cids x, .index cids x ∈ commands →
      .index cids x ∈ n.commands ∨ (n.channels ≤ x ∧ x < n.channels) :=
    fun _ _ member => .inl (left member)
  rcases UrsaService.step_outputs taken with still | ⟨cid, data, rfl, rfl⟩ |
    ⟨root, cids, sender, q, rfl, behaviour, rfl⟩ | ⟨env, address, later, rfl, -, published⟩
  · refine ⟨?_, ?_, le_rfl, ?_, sent, ?_⟩
    · simp only [still.store]
      exact fun _ _ => id
    · simp only [still.store]
      exact clean
    · simp only [still.enqueued]
      exact List.Subset.refl _
    · simp only [still.indexed]
      exact fun _ => .inl
  · have own : is (cid, data).1 (cid, data).2 := genuine
    exact ⟨fun _ _ => clean.kept single own, clean.put own, le_rfl, List.Subset.refl _, sent,
      fun _ => .inl⟩
  · refine ⟨fun _ _ => id, clean, le_rfl, List.subset_append_left _ _, sent, ?_⟩
    intro a member
    rcases List.mem_append.mp member with old | new
    · exact .inl old
    · obtain rfl := List.mem_singleton.mp new
      exact .inr ⟨asked _ _ q rfl, root, List.mem_append_right _ List.mem_cons_self, rfl⟩
  · obtain ⟨_, _, _, rfl⟩ := UrsaService.onStartPublish_frame published
    exact ⟨fun _ _ => id, clean, le_rfl, List.Subset.refl _, sent, fun _ => .inl⟩

/-- A reader that goes on sends a request, or nothing. -/
theorem proceed_cases {call : GetCall} {stage : GetStage}
    (taken : n.proceed call = some (stage, n')) :
    n' = n ∨ n' = { n with
      commands := n.commands ++ [.getBitswap call.cid .get n.channels]
      channels := n.channels + 1 } := by
  obtain ⟨cid, old⟩ := call
  cases old with
  | checking =>
      cases taken
      exact .inl rfl
  | sending =>
      simp only [Node.proceed] at taken
      split at taken
      · cases taken
        exact .inr rfl
      · cases taken
        exact .inl rfl
  | waiting receiver =>
      simp only [Node.proceed] at taken
      split at taken
      · split at taken <;> cases taken <;> exact .inl rfl
      · split at taken <;> cases taken
        exact .inl rfl
  | reading =>
      cases taken
      exact .inl rfl
  | returned result => cases taken

/-- Blocks that are written are what their CIDs stand for. -/
def NodeInput.Genuine (is : Cid → Bytes → Prop) : NodeInput → Prop
  | .insert cid data => is cid data
  | .service input => input.Genuine is
  | _ => True

/-- **What a step of the node can do.** -/
theorem grows_of_step (single : Single is) (clean : Clean is n.service.store) {input : NodeInput}
    (genuine : input.Genuine is) (taken : n.step deps B input = some n') : Grows is n n' := by
  cases input with
  | service input =>
      have other : ∀ command id, input ≠ .command command id := by
        rintro command id rfl
        cases taken
      have served : (n.service.step deps B input).map (fun service => { n with service }) =
          some n' := by
        cases input with
        | command command id => exact absurd rfl (other command id)
        | _ => exact taken
      obtain ⟨service, moved, rfl⟩ := Option.map_eq_some_iff.mp served
      refine grows_service single clean moved genuine (List.Subset.refl _) ?_
      intro cids x id isCommand
      exact absurd isCommand (other _ id)
  | take id =>
      simp only [Node.step] at taken
      split at taken
      · cases taken
      · rename_i command commands queued
        obtain ⟨service, moved, rfl⟩ := Option.map_eq_some_iff.mp taken
        refine grows_service single clean moved trivial ?_ ?_
        · rw [queued]
          exact List.subset_cons_self _ _
        · intro cids x id' isCommand
          cases isCommand
          rw [queued]
          exact List.mem_cons_self
  | client command =>
      cases taken
      refine grows_send clean _ ?_
      intro cids x isIndex
      cases command <;> cases isIndex
      rfl
  | insert cid data =>
      cases taken
      exact grows_write (b := (cid, data)) single clean genuine
  | get cid =>
      cases taken
      exact ⟨fun _ _ => id, clean, le_rfl, List.Subset.refl _, fun _ _ => .inl, fun _ => .inl⟩
  | resume i =>
      simp only [Node.step] at taken
      split at taken
      · rename_i call listed
        obtain ⟨⟨stage, n₁⟩, proceeded, rfl⟩ := Option.map_eq_some_iff.mp taken
        have grows : Grows is n n₁ := by
          rcases proceed_cases proceeded with rfl | rfl
          · exact grows_refl clean
          · refine grows_send clean _ ?_
            rintro cids x ⟨⟩
        exact ⟨grows.kept, grows.clean, grows.channels, grows.enqueued, grows.sent,
          grows.answered⟩
      · cases taken

end Steps

/-! ## What a call has done -/

namespace Server

variable {K : Type} {deps : Deps K} {B : Blocks} {car : CarCodec} {is : Cid → Bytes → Prop}
  {s t : Server K}

/-- All these blocks are stored. -/
def Holds (n : Node K) (blocks : List (Cid × Bytes)) : Prop :=
  ∀ b ∈ blocks, n.service.store.get b.1 = some b.2

/-- `put_car` has written the blocks of the file and knows its roots. -/
def Loaded (car : CarCodec) (n : Node K) (file : Bytes) (cids : List Cid) : Prop :=
  (car.loadCar file).2 = .ok cids ∧ Holds n (car.loadCar file).1

def Progress (car : CarCodec) (is : Cid → Bytes → Prop) (n : Node K) (file : Bytes) :
    PutStage → Prop
  | .loading blocks loaded => loaded = (car.loadCar file).2 ∧ (∀ b ∈ blocks, is b.1 b.2) ∧
      ∃ written, (car.loadCar file).1 = written ++ blocks ∧ Holds n written
  | .waiting receiver cids => receiver < n.channels ∧ Loaded car n file cids
  | .returned result => ∀ cids, result = .ok cids → Loaded car n file cids ∧
      ∃ root ∈ n.service.history.enqueued, cids.head? = some root

/-- Channel `x` has been made, and a call that waits on it has sent these roots. -/
def Own (n : Node K) (puts : List PutCall) (cids : List Cid) (x : SenderId) : Prop :=
  x < n.channels ∧ ∀ call ∈ puts, ∀ cids', call.stage = .waiting x cids' → cids' = cids

structure Inv (car : CarCodec) (is : Cid → Bytes → Prop) (s : Server K) : Prop where
  clean : Clean is s.store
  sent : ∀ cids x, .index cids x ∈ s.node.commands → Own s.node s.puts cids x
  answered : ∀ a ∈ s.node.service.history.indexed, Own s.node s.puts a.2 a.1 ∧
    ∃ root ∈ s.node.service.history.enqueued, a.2.head? = some root
  puts : ∀ call ∈ s.puts, Progress car is s.node call.file call.stage

theorem Holds.grows {n n' : Node K} (grows : Grows is n n') {blocks : List (Cid × Bytes)}
    (holds : Holds n blocks) : Holds n' blocks :=
  fun b member => grows.kept b.1 b.2 (holds b member)

theorem Progress.grows {n n' : Node K} (grows : Grows is n n') {file : Bytes} {stage : PutStage}
    (progress : Progress car is n file stage) : Progress car is n' file stage := by
  cases stage with
  | loading blocks loaded =>
      obtain ⟨rest, genuine, written, split, holds⟩ := progress
      exact ⟨rest, genuine, written, split, holds.grows grows⟩
  | waiting receiver cids =>
      exact ⟨Nat.lt_of_lt_of_le progress.1 grows.channels, progress.2.1, progress.2.2.grows grows⟩
  | returned result =>
      intro cids ok
      obtain ⟨⟨loaded, holds⟩, root, enqueued, first⟩ := progress cids ok
      exact ⟨⟨loaded, holds.grows grows⟩, root, grows.enqueued enqueued, first⟩

/-- **A step**: the node grows, and a call that now waits, waits on a channel just made, for
the roots it has sent. -/
theorem Inv.moves (inv : Inv car is s) (grows : Grows is s.node t.node)
    (calls : ∀ call ∈ t.puts, call ∈ s.puts ∨ (Progress car is t.node call.file call.stage ∧
      ∀ x cids, call.stage = .waiting x cids → s.node.channels ≤ x ∧
        ∀ cids', .index cids' x ∈ t.node.commands → cids' = cids)) : Inv car is t := by
  have own : ∀ cids x, Own s.node s.puts cids x → Own t.node t.puts cids x := by
    rintro cids x ⟨made, same⟩
    refine ⟨Nat.lt_of_lt_of_le made grows.channels, ?_⟩
    intro call member cids' waits
    rcases calls call member with old | ⟨-, new⟩
    · exact same call old cids' waits
    · exact absurd made (Nat.not_lt_of_le (new x cids' waits).1)
  have answered : ∀ a ∈ t.node.service.history.indexed,
      Own s.node s.puts a.2 a.1 ∧
        ∃ root ∈ t.node.service.history.enqueued, a.2.head? = some root := by
    intro a member
    rcases grows.answered a member with old | ⟨asked, first⟩
    · obtain ⟨own, root, enqueued, first⟩ := inv.answered a old
      exact ⟨own, root, grows.enqueued enqueued, first⟩
    · exact ⟨inv.sent a.2 a.1 asked, first⟩
  constructor
  · exact grows.clean
  · intro cids x member
    rcases grows.sent cids x member with old | ⟨unmade, made⟩
    · exact own cids x (inv.sent cids x old)
    · refine ⟨made, ?_⟩
      intro call listed cids' waits
      rcases calls call listed with old | ⟨-, new⟩
      · have progress := inv.puts call old
        rw [waits] at progress
        exact absurd progress.1 (Nat.not_lt_of_le unmade)
      · exact ((new x cids' waits).2 cids member).symm
  · intro a member
    obtain ⟨was, first⟩ := answered a member
    exact ⟨own a.2 a.1 was, first⟩
  · intro call member
    rcases calls call member with old | ⟨progress, -⟩
    · exact (inv.puts call old).grows grows
    · exact progress

/-- The files of uploads hold what their CIDs stand for: `load_car` checks it. -/
def Genuine (car : CarCodec) (is : Cid → Bytes → Prop) (_ : Server K) : ServerInput → Prop
  | .node input => input.Genuine is
  | .put file => ∀ b ∈ (car.loadCar file).1, is b.1 b.2
  | .resume _ => True

/-- **A call takes its next step.** -/
theorem proceed_spec (single : Single is) (inv : Inv car is s) {call : PutCall}
    (member : call ∈ s.puts) {stage : PutStage} {n : Node K}
    (taken : proceed s.node call = some (stage, n)) :
    Grows is s.node n ∧ Progress car is n call.file stage ∧
      ∀ x cids, stage = .waiting x cids → s.node.channels ≤ x ∧
        ∀ cids', .index cids' x ∈ n.commands → cids' = cids := by
  have progress := inv.puts call member
  obtain ⟨file, old⟩ := call
  cases old with
  | loading blocks loaded =>
      obtain ⟨rest, genuine, written, split, holds⟩ := progress
      cases blocks with
      | cons b blocks =>
          cases taken
          have grows := grows_write single inv.clean (genuine b List.mem_cons_self)
          refine ⟨grows, ⟨rest, ?_, written ++ [b], ?_, ?_⟩, nofun⟩
          · exact fun c later => genuine c (List.mem_cons_of_mem b later)
          · simpa using split
          · intro c member
            rcases List.mem_append.mp member with before | last
            · exact holds.grows grows c before
            · obtain rfl := List.mem_singleton.mp last
              exact Store.get_put_self _ _ _
      | nil =>
          rw [List.append_nil] at split
          cases loaded with
          | error reason =>
              cases taken
              exact ⟨grows_refl inv.clean, nofun, nofun⟩
          | ok cids =>
              simp only [proceed] at taken
              split at taken
              · cases taken
                have grows := grows_send inv.clean (.index cids s.node.channels)
                  (fun _ _ sent => by cases sent; rfl)
                refine ⟨grows, ⟨Nat.lt_succ_self _, rest.symm, ?_⟩, ?_⟩
                · rw [split]
                  exact holds.grows grows
                · intro x cids' waits
                  cases waits
                  refine ⟨le_rfl, ?_⟩
                  intro cids' sent
                  rcases List.mem_append.mp sent with before | last
                  · exact absurd (inv.sent _ _ before).1 (lt_irrefl _)
                  · cases List.mem_singleton.mp last
                    rfl
              · cases taken
                exact ⟨grows_refl inv.clean, nofun, nofun⟩
  | waiting receiver cids =>
      obtain ⟨-, loaded⟩ := progress
      simp only [proceed] at taken
      split at taken
      · rename_i replied
        cases taken
        refine ⟨grows_refl inv.clean, ?_, nofun⟩
        obtain ⟨a, indexed, own⟩ := List.any_eq_true.mp replied
        simp only [decide_eq_true_eq] at own
        obtain ⟨⟨-, same⟩, first⟩ := inv.answered a indexed
        rintro cids' ⟨⟩
        obtain rfl := same _ member cids (by rw [own])
        exact ⟨loaded, first⟩
      · split at taken <;> cases taken
        exact ⟨grows_refl inv.clean, nofun, nofun⟩
  | returned result => cases taken

theorem Inv.step (single : Single is) (inv : Inv car is s) {input : ServerInput}
    (genuine : Genuine car is s input) (taken : s.step deps B car input = some t) :
    Grows is s.node t.node ∧ Inv car is t := by
  cases input with
  | node input =>
      obtain ⟨node, moved, rfl⟩ := Option.map_eq_some_iff.mp taken
      have grows := grows_of_step single inv.clean genuine moved
      exact ⟨grows, inv.moves grows fun _ => .inl⟩
  | put file =>
      cases taken
      have grows := grows_refl inv.clean
      refine ⟨grows, inv.moves grows ?_⟩
      intro call member
      rcases List.mem_append.mp member with old | new
      · exact .inl old
      · obtain rfl := List.mem_singleton.mp new
        exact .inr ⟨⟨rfl, genuine, [], rfl, nofun⟩, nofun⟩
  | resume i =>
      simp only [Server.step] at taken
      split at taken
      · rename_i call listed
        obtain ⟨⟨stage, node⟩, proceeded, rfl⟩ := Option.map_eq_some_iff.mp taken
        obtain ⟨grows, progress, waits⟩ :=
          proceed_spec single inv (List.mem_of_getElem? listed) proceeded
        refine ⟨grows, inv.moves grows ?_⟩
        intro other member
        rcases List.mem_or_eq_of_mem_set member with old | rfl
        · exact .inl old
        · exact .inr ⟨progress, waits⟩
      · cases taken

end Server

/-! ## Reading back -/

section Reading

variable {B : Blocks} {car : CarCodec}

/-- What is read from a store written from empty was written. -/
theorem mem_of_get_putAll {blocks : List (Cid × Bytes)} {store : Store} {cid : Cid} {data : Bytes}
    (found : (putAll store blocks).get cid = some data) :
    (cid, data) ∈ blocks ∨ store.get cid = some data := by
  induction blocks generalizing store with
  | nil => exact .inr found
  | cons b rest ih =>
      have later : (putAll (store.put b.1 b.2) rest).get cid = some data := found
      rcases ih later with later | now
      · exact .inl (List.mem_cons_of_mem b later)
      · rcases Store.get_put_cases now with ⟨rfl, rfl⟩ | before
        · exact .inl List.mem_cons_self
        · exact .inr before

theorem headerValue_append {a b text : String} (whole : (headerValue text).isSome = true)
    (before : (headerValue a).isSome = true) (after : (headerValue b).isSome = true) :
    headerValue (a ++ text ++ b) = some (a ++ text ++ b) := by
  have utf8_append (x y : String) : DagCbor.utf8 (x ++ y) = DagCbor.utf8 x ++ DagCbor.utf8 y := by
    simp [DagCbor.utf8]
  have printable {x : String} (isValue : (headerValue x).isSome = true) :
      (DagCbor.utf8 x).all (fun b => (32 ≤ b && b ≠ 127) || b = 9) = true := by
    by_contra unprintable
    rw [headerValue, if_neg unprintable] at isValue
    cases isValue
  rw [headerValue, if_pos]
  rw [utf8_append, utf8_append, List.all_append, List.all_append, printable whole,
    printable before, printable after]
  rfl

/-- What clients of a node with this store get back of a file. -/
structure Retrievable (B : Blocks) (car : CarCodec) (file : Bytes) (store : Store) : Prop where
  /-- Each block, by `ursa_get_cid`. -/
  blocks : ∀ b ∈ (car.loadCar file).1, ∀ net lib fromStr toString getFile putFile text,
    fromStr text = some b.1 →
      call lib (RpcServer.new lib fromStr toString
        ⟨fun cid => (get net cid (.start store)).1, getFile, putFile⟩) .getCid
          (NetworkGetParams.mk text) = .ok b.2
  /-- Each DAG that is wholly in the file, as a CAR file of its own, over HTTP. -/
  dags : ∀ root, Complete B (putAll .empty (car.loadCar file).1) root →
    ∀ order net fromStr display text, fromStr text = some root → (headerValue text).isSome = true →
      ∃ response body dag,
        getHandler fromStr display (fun cid => (stream B order car net cid (.start store)).1) text =
          .ok response ∧
        response.body = .ok body ∧ car.loadCar body = (dag, .ok [root]) ∧
        DagOf B (putAll .empty (car.loadCar file).1) root dag

/-- A handler that returns a result has it delivered. -/
theorem call_of_ok {lib : RpcLib} {handlers : Handlers} {m : Method} {params : m.Params}
    {result : m.Result} (handled : handlers m params = .ok result) :
    call lib handlers m params = .ok result := by
  rw [call_eq, handled]

/-- A node that holds the blocks gives them back, without asking anybody. -/
theorem retrievable_of_stored (roundTrips : car.RoundTrips B) {file : Bytes} {store : Store}
    (stored : ∀ b ∈ (car.loadCar file).1, store.get b.1 = some b.2) :
    Retrievable B car file store where
  blocks b member net lib fromStr toString getFile putFile text parsed := by
    have has : store.has b.1 = true := (store.has_iff b.1).mpr ⟨b.2, stored b member⟩
    have got : (get net b.1 (.start store)).1 = .ok (some b.2) := by
      simp [get, fetch, Session.start, has, stored b member]
    have handled : RpcError.toError lib
        (getCidHandler fromStr (fun cid => (get net cid (.start store)).1) text) = .ok b.2 := by
      simp [getCidHandler, parsed, got, RpcError.toError]
    exact call_of_ok handled
  dags root complete order net fromStr display text parsed printable := by
    have agree : ∀ cid, Reach B (putAll .empty (car.loadCar file).1) root cid →
        store.get cid = (putAll .empty (car.loadCar file).1).get cid := by
      intro cid reach
      obtain ⟨data, refs, found, -⟩ := complete cid reach
      rcases mem_of_get_putAll found with written | impossible
      · rw [found]
        exact stored (cid, data) written
      · cases impossible
    obtain ⟨dag, body, dagOf, written, loaded, traversed⟩ :=
      exports_of_complete (s := .start store) car roundTrips order net (complete.of_agree agree)
    have streamed : (stream B order car net root (.start store)).1 = .ok (.ok body) := by
      simp [stream, traversed, written]
    have disposition := headerValue_append (a := "attachment; filename=\"") (b := ".car\"") printable
      (by decide) (by decide)
    refine ⟨⟨"application/vnd.curl.car; charset=utf-8",
      "attachment; filename=\"" ++ text ++ ".car\"", .ok body⟩, body, dag, ?_, rfl, loaded,
      dagOf.of_agree agree⟩
    simp only [getHandler, parsed, streamed, disposition]

end Reading

namespace Server

variable {K : Type}

/-- **Acknowledged files stay retrievable.**  In every run of the server in which blocks that
are written are what their CIDs stand for, however uploads, reads, other commands, bitswap and
the loop interleave: when a client has been told that a file is stored, the file's first root
was put into the queue of the index provider, and at every later time, whether the loop runs
or not and whatever the network does, every block of the file can be read, and every DAG that
is wholly in the file can be downloaded. -/
theorem acknowledged_files_stay_retrievable (deps : Deps K) (B : Blocks) (car : CarCodec)
    (roundTrips : car.RoundTrips B) (peerId : PeerId) (config : NetworkConfig) (store : Store)
    (indexProvider : Provider K) (blockstore : Cid → Option Ipld) (is : Cid → Bytes → Prop)
    (single : Single is) (clean : Clean is store) (inputs : List ServerInput) (s : Server K)
    (run : exec (step deps B car)
      (new (.new (.new peerId config store indexProvider blockstore))) inputs = some s)
    (genuine : Meets (step deps B car) (Genuine car is)
      (new (.new (.new peerId config store indexProvider blockstore))) inputs)
    (put : PutCall) (member : put ∈ s.puts) (result : Outcome ApiError (List Cid))
    (returned : put.stage = .returned result) (acknowledged : Acknowledged result) :
    (∃ root ∈ s.node.service.history.enqueued, ∃ rest,
      (car.loadCar put.file).2 = .ok (root :: rest)) ∧
    ∀ more t, exec (step deps B car) s more = some t →
      Meets (step deps B car) (Genuine car is) s more → Retrievable B car put.file t.store := by
  have start : Inv car is (new (.new (.new peerId config store indexProvider blockstore)) :
      Server K) := ⟨clean, nofun, nofun, nofun⟩
  have inv : Inv car is s := exec_invariant
    (fun _ _ _ inv genuine taken => (inv.step single genuine taken).2) start genuine run
  obtain ⟨cids, rfl⟩ := acknowledged.returned
  have progress := inv.puts put member
  rw [returned] at progress
  obtain ⟨⟨loaded, holds⟩, root, enqueued, first⟩ := progress cids rfl
  constructor
  · cases cids with
    | nil => cases first
    | cons first' rest =>
        obtain rfl : first' = root := Option.some.inj first
        exact ⟨first', enqueued, rest, loaded⟩
  · intro more t later genuine'
    have kept : Inv car is t ∧ Holds t.node (car.loadCar put.file).1 := by
      refine exec_invariant
        (I := fun s : Server K => Inv car is s ∧ Holds s.node (car.loadCar put.file).1) ?_
        ⟨inv, holds⟩ genuine' later
      rintro s input t ⟨inv, holds⟩ genuine taken
      obtain ⟨grows, inv'⟩ := inv.step single genuine taken
      exact ⟨inv', holds.grows grows⟩
    exact retrievable_of_stored roundTrips kept.2

/-! Two uploads, the second one begun and over while the first one writes its blocks. -/

/-- The roots a call has returned. -/
def roots (put : PutCall) : Option (List Cid) :=
  match put.stage with
  | .returned (.ok cids) => some cids
  | _ => none

theorem returned_of_roots {put : PutCall} {cids : List Cid} (isRoots : roots put = some cids) :
    put.stage = .returned (.ok cids) := by
  unfold roots at isRoots
  split at isRoots
  · rename_i stage
    cases isRoots
    exact stage
  · cases isRoots

def sampleFile : Bytes :=
  (plainCar.writeStream (carHeader UrsaService.sampleRoot.1)
    [UrsaService.sampleRoot, UrsaService.sampleLeaf]).toOption.getD []

def leafFile : Bytes :=
  (plainCar.writeStream (carHeader UrsaService.sampleLeaf.1) [UrsaService.sampleLeaf]).toOption.getD []

/-- What the blocks of these files are. -/
def SampleBlock (cid : Cid) (data : Bytes) : Prop :=
  (cid, data) ∈ [UrsaService.sampleRoot, UrsaService.sampleLeaf]

theorem sampleBlock_single : Single SampleBlock := by
  intro cid data data' is is'
  have distinct : UrsaService.sampleRoot.1 ≠ UrsaService.sampleLeaf.1 := by decide +kernel
  simp only [SampleBlock, List.mem_cons, List.not_mem_nil, or_false] at is is'
  grind

theorem sampleBlock_clean : Clean SampleBlock .empty := by
  intro cid data impossible
  cases impossible

theorem sampleBlock_of_file : ∀ file ∈ [sampleFile, leafFile], ∀ b ∈ (plainCar.loadCar file).1,
    b ∈ [UrsaService.sampleRoot, UrsaService.sampleLeaf] := by
  decide +kernel

def overlappingUploads : List ServerInput :=
  [.put sampleFile, .resume 0, .put leafFile, .resume 1, .resume 1, .node (.take 0), .resume 1,
    .resume 0, .resume 0, .node (.take 1), .resume 0]

theorem acknowledged_files_stay_retrievable_overlapping :
    ∃ s : Server Unit, exec (step plainDeps plainBlocks plainCar)
        (new (.new (UrsaService.sampleService .empty))) overlappingUploads = some s ∧
      s.node.service.history.enqueued = [UrsaService.sampleLeaf.1, UrsaService.sampleRoot.1] ∧
      Retrievable plainBlocks plainCar sampleFile s.store := by
  have evaluated : (exec (step plainDeps plainBlocks plainCar)
      (new (.new (UrsaService.sampleService .empty))) overlappingUploads).map (fun s =>
        (s.node.service.history.enqueued,
          s.puts[0]?.map fun put => (put.file, roots put))) =
      some ([UrsaService.sampleLeaf.1, UrsaService.sampleRoot.1],
        some (sampleFile, some [UrsaService.sampleRoot.1])) := by decide +kernel
  obtain ⟨s, run, facts⟩ := Option.map_eq_some_iff.mp evaluated
  simp only [Prod.mk.injEq] at facts
  obtain ⟨put, listed, facts'⟩ := Option.map_eq_some_iff.mp facts.2
  simp only [Prod.mk.injEq] at facts'
  obtain ⟨isFile, ended⟩ := facts'
  have genuine : Meets (step plainDeps plainBlocks plainCar) (Genuine plainCar SampleBlock)
      (new (.new (UrsaService.sampleService .empty))) overlappingUploads := by
    apply meets_of_forall
    intro input member s
    simp only [overlappingUploads, List.mem_cons, List.not_mem_nil, or_false] at member
    rcases member with rfl | rfl | rfl | rfl | rfl | rfl | rfl | rfl | rfl | rfl | rfl
    · exact sampleBlock_of_file sampleFile (by simp)
    · trivial
    · exact sampleBlock_of_file leafFile (by simp)
    all_goals trivial
  obtain ⟨-, stays⟩ := acknowledged_files_stay_retrievable plainDeps plainBlocks plainCar
    (plainCar_roundTrips plainBlocks) _ _ _ _ _ _ sampleBlock_single sampleBlock_clean
    overlappingUploads s run genuine put (List.mem_of_getElem? listed) _ (returned_of_roots ended)
    (.rpc (fun _ => "") "" _ rfl)
  refine ⟨s, run, facts.1, ?_⟩
  rw [← isFile]
  exact stays [] s rfl trivial

end Server

end Ursa.Rpc

/-
# Rpc.Download — files downloaded from any node, while everything else goes on

`get_data` (`ursa-rpc-server/src/api.rs`) looks for the root, has the service loop fetch the
DAG if the root is not there, and then walks the DAG in the store, block by block
(`dag_traversal`).  `stream` and the handler of `GET /:cid` make a CAR file of what it
returns.  Blocks are stored while it walks, replies come late or for another request, the
process ends in the middle of it.

`Host` is a server with any number of such calls, each at one of its awaits or between two
turns of its walk, and a `Net` is any number of hosts with stores of their own.

* `downloads_agree` — a file that a client gets holds exactly the blocks of its root, as the
  CIDs define them; so two clients get the same, at any two hosts and times.
* `downloads_are_wait_free` — where the DAG is complete when the call begins, the call never
  waits for the loop, the network or another call, and returns after a bounded number of its
  own steps.
-/
import Ursa.Rpc.Restart
import Ursa.Theory.LiveSearch

namespace Ursa

set_option autoImplicit false

open Ursa.Theory.Worklist

/-! ## What a root stands for -/

section Contents

variable {B : Blocks} {is : Cid → Bytes → Prop} {s s' : Store} {root : Cid}
  {dag dag' : List (Cid × Bytes)}

/-- What `a` stands for links to `b`. -/
def Linked (B : Blocks) (is : Cid → Bytes → Prop) (a b : Cid) : Prop :=
  ∃ data refs, is a data ∧ B.references a data = some refs ∧ b ∈ refs

/-- The blocks of a root, whoever has them: each once, the root first. -/
structure ContentOf (B : Blocks) (is : Cid → Bytes → Prop) (root : Cid)
    (dag : List (Cid × Bytes)) : Prop where
  nodup : (dag.map Prod.fst).Nodup
  mem_iff : ∀ b, b ∈ dag ↔ Relation.ReflTransGen (Linked B is) root b.1 ∧ is b.1 b.2
  first : (dag.map Prod.fst).head? = some root

/-- Two lists of the blocks of one root differ in their order at most. -/
theorem ContentOf.perm (content : ContentOf B is root dag) (content' : ContentOf B is root dag') :
    dag.Perm dag' :=
  (List.perm_ext_iff_of_nodup content.nodup.of_map content'.nodup.of_map).mpr fun b =>
    (content.mem_iff b).trans (content'.mem_iff b).symm

/-- In a complete DAG of blocks that are what their CIDs stand for, links are as they should be. -/
theorem Complete.reach_iff (complete : Complete B s root) (clean : Clean is s)
    (single : Single is) (cid : Cid) :
    Reach B s root cid ↔ Relation.ReflTransGen (Linked B is) root cid := by
  constructor
  · refine Relation.ReflTransGen.mono ?_ _ _
    rintro a b ⟨refs, linked, member⟩
    obtain ⟨data, stored, decoded⟩ := Option.bind_eq_some_iff.mp linked
    exact ⟨data, refs, clean a data stored, decoded, member⟩
  · intro path
    induction path with
    | refl => exact .refl
    | @tail a b _ link reach =>
        obtain ⟨data, refs, genuine, decoded, member⟩ := link
        obtain ⟨data', -, stored, -⟩ := complete a reach
        obtain rfl := single a data data' genuine (clean a data' stored)
        exact reach.tail ⟨refs, by simp [links, stored, decoded], member⟩

theorem DagOf.content (dagOf : DagOf B s root dag) (complete : Complete B s root)
    (clean : Clean is s) (single : Single is) : ContentOf B is root dag where
  nodup := dagOf.nodup
  first := dagOf.first
  mem_iff b := by
    rw [dagOf.mem, complete.reach_iff clean single]
    refine and_congr_right fun path => ⟨clean b.1 b.2, ?_⟩
    intro genuine
    obtain ⟨data, -, stored, -⟩ := complete b.1 ((complete.reach_iff clean single b.1).mpr path)
    rw [stored, single b.1 b.2 data genuine (clean b.1 data stored)]

/-! ## Walking a store that grows -/

theorem visitBlock_extends (kept : ∀ cid data, s.get cid = some data → s'.get cid = some data) :
    Extends (visitBlock B s root) (visitBlock B s' root) := by
  intro cid entry visits
  obtain ⟨own, found, accepted, decoded⟩ := visitBlock_ok visits
  obtain ⟨⟨cid', data⟩, refs⟩ := entry
  obtain rfl : cid' = cid := own
  simp [visitBlock, kept _ _ found, accepted, decoded]

theorem total_of_complete (complete : Complete B s root) : Total (visitBlock B s root) root := by
  intro cid reach
  obtain ⟨data, refs, visits⟩ := visitBlock_of_valid root (complete cid (reach_of_search_reach reach))
  exact ⟨_, visits⟩

/-- The turns of a walk that nothing keeps from succeeding. -/
theorem work_start (B : Blocks) (s : Store) (root : Cid) :
    work (visitBlock B s root) s.cids.toFinset (.start root) + 1 = dagFuel B s root := by
  have all : s.cids.toFinset.filter (· ∉ (Scan.start root : Scan Cid (Cid × Bytes)).visited) =
      s.cids.toFinset := by simp [Scan.start]
  rw [work, all, List.sum_toFinset (fanout (visitBlock B s root)) s.nodup_cids, dagFuel]
  simp only [Scan.start, List.length_singleton]
  omega

end Contents

end Ursa

namespace Ursa.Rpc

open Ursa.Theory (Outcome)
open Ursa.Theory.Run
open Ursa.Theory.Worklist
open Ursa.Network
open Ursa.IndexProvider

/-! ## Calls -/

/-- Where a call of `get_data` stands. -/
inductive DataStage where
  /-- Before the look at the store. -/
  | checking
  /-- The root was not there. -/
  | sending
  /-- The command is sent. -/
  | waiting (receiver : SenderId)
  /-- In `dag_traversal`. -/
  | traversing (scan : Scan Cid (Cid × Bytes))
  | returned (result : Outcome ApiError (List (Cid × Bytes)))
  /-- The process has ended before the call. -/
  | lost

structure DataCall where
  root : Cid
  stage : DataStage

/-- What is left of a call when the process ends. -/
def DataCall.cutOff (call : DataCall) : DataCall :=
  match call.stage with
  | .returned _ => call
  | _ => { call with stage := .lost }

/-- The blocks a call has returned. -/
def DataCall.data (call : DataCall) : Option (List (Cid × Bytes)) :=
  match call.stage with
  | .returned (.ok dag) => some dag
  | _ => none

theorem DataCall.returned_of_data {call : DataCall} {dag : List (Cid × Bytes)}
    (isData : call.data = some dag) : call.stage = .returned (.ok dag) := by
  unfold DataCall.data at isData
  split at isData
  · rename_i stage
    cases isData
    exact stage
  · cases isData

/-- `dag_traversal` on the root, before its first turn. -/
def beginTraversal (root : Cid) : DataStage :=
  .traversing (.start (convertCid root.toBytes))

/-- `stream`, from what `get_data` returns. -/
def streamOf (car : CarCodec) (root : Cid) (data : Outcome ApiError (List (Cid × Bytes))) :
    Outcome ApiError (Except String Bytes) :=
  (Outcome.andThen (data.expect "called `Result::unwrap()` on an `Err` value", ()) fun dag s =>
    (.ok (car.writeStream (carHeader root) (carBlocks dag)), s)).1

theorem stream_eq (B : Blocks) (order : Nat → List Cid → Nat) (car : CarCodec) (net : Network)
    (root : Cid) (s : Session) :
    (stream B order car net root s).1 = streamOf car root (getData B order net root s).1 := by
  simp only [stream, streamOf]
  cases (getData B order net root s).1 <;> rfl

/-! ## A host -/

structure Host (K : Type) where
  server : Server K
  downloads : List DataCall

inductive HostInput (K : Type) where
  /-- Anything else the process does, and its end. -/
  | life (input : LifeInput K)
  /-- `get_data` is called. -/
  | download (root : Cid)
  /-- A call takes its next step; `pick` says which of the pending CIDs comes next. -/
  | resume (call pick : Nat)

section Model

variable {K : Type} (deps : Deps K) (B : Blocks) (car : CarCodec)

namespace Server

/-- Send a command on a new channel. -/
def send (s : Server K) (command : SenderId → UrsaCommand) : Server K :=
  { s with node := { s.node with
      commands := s.node.commands ++ [command s.node.channels]
      channels := s.node.channels + 1 } }

/-- What a call of `get_data` does next, and the server after it; `none` while it has to wait. -/
def proceedData (s : Server K) (call : DataCall) (pick : Nat) : Option (DataStage × Server K) :=
  match call.stage with
  | .checking =>
      some (if s.store.has call.root then beginTraversal (convertCid call.root.toBytes)
        else .sending, s)
  | .sending =>
      if s.node.service.status = .running then
        some (.waiting s.node.channels, s.send (.getBitswap call.root .sync))
      else some (.returned (.err (.send "sending into a closed channel")), s)
  | .waiting receiver =>
      match s.node.service.history.replies.reverse.find? (fun a => a.sender = receiver) with
      | some a =>
          match a.result with
          | .ok _ => some (beginTraversal (convertCid call.root.toBytes), s)
          | .error e => some (.returned (.err (.bitswapFailed e)), s)
      -- a loop that ends drops the senders it holds
      | none =>
          if s.node.service.status = .running then none else some (.returned (.err .canceled), s)
  | .traversing scan =>
      match scan.turn (visitBlock B s.store (convertCid call.root.toBytes)) pick with
      | .ok (.inl scan) => some (.traversing scan, s)
      | .ok (.inr dag) => some (.returned (.ok dag), s)
      | .err e => some (.returned (.err (.traversal e)), s)
      | .panic m => some (.returned (.panic m), s)
      | .diverge => none
  | .returned _ => none
  | .lost => none

end Server

namespace Host

def new (server : Server K) : Host K := { server, downloads := [] }

def store (h : Host K) : Store := h.server.store

def step (h : Host K) : HostInput K → Option (Host K)
  | .life (.server input) => (h.server.step deps B car input).map fun server => { h with server }
  | .life (.restart boot) =>
      some { server := h.server.restart deps boot, downloads := h.downloads.map DataCall.cutOff }
  | .download root => some { h with downloads := h.downloads ++ [⟨root, .checking⟩] }
  | .resume i pick =>
      match h.downloads[i]? with
      | some call =>
          (h.server.proceedData B call pick).map fun (stage, server) =>
            { server, downloads := h.downloads.set i { call with stage } }
      | none => none

def Genuine (is : Cid → Bytes → Prop) (h : Host K) : HostInput K → Prop
  | .life input => Server.LifeGenuine deps car is h.server input
  | _ => True

end Host

end Model

/-! ## What a call knows -/

section Sound

variable {K : Type} {deps : Deps K} {B : Blocks} {car : CarCodec} {is : Cid → Bytes → Prop}

/-- A walk is in order between two turns; what is returned is what the root stands for. -/
def DataStage.Sound (B : Blocks) (is : Cid → Bytes → Prop) (store : Store) (root : Cid) :
    DataStage → Prop
  | .traversing scan => ScanInv (visitBlock B store root) root scan
  | .returned (.ok dag) => ContentOf B is root dag ∧ ∀ b ∈ dag, B.new b.1 b.2 = true
  | _ => True

theorem DataStage.Sound.grows {store store' : Store} {root : Cid} {stage : DataStage}
    (sound : stage.Sound B is store root)
    (kept : ∀ cid data, store.get cid = some data → store'.get cid = some data) :
    stage.Sound B is store' root := by
  cases stage with
  | traversing scan => exact sound.extends (visitBlock_extends kept)
  | returned result => cases result <;> exact sound
  | _ => trivial

theorem sound_cutOff {store : Store} {call : DataCall} (sound : call.stage.Sound B is store call.root) :
    call.cutOff.stage.Sound B is store call.cutOff.root := by
  unfold DataCall.cutOff
  split
  · exact sound
  · trivial

theorem sound_beginTraversal (store : Store) (root : Cid) :
    (beginTraversal (convertCid root.toBytes)).Sound B is store root := by
  rw [beginTraversal, convertCid_toBytes, convertCid_toBytes]
  exact inv_start root

variable (deps car) in
/-- What a call sends, any client may send. -/
theorem proceedData_server {s t : Server K} {call : DataCall} {pick : Nat} {stage : DataStage}
    (taken : s.proceedData B call pick = some (stage, t)) :
    t = s ∨ s.step deps B car (.node (.client (.getBitswap call.root .sync 0))) = some t := by
  unfold Server.proceedData at taken
  split at taken
  · cases taken
    exact .inl rfl
  · split at taken <;> cases taken
    · exact .inr rfl
    · exact .inl rfl
  · split at taken
    · split at taken <;> cases taken <;> exact .inl rfl
    · split at taken <;> cases taken
      exact .inl rfl
  · split at taken <;> cases taken <;> exact .inl rfl
  · cases taken
  · cases taken

/-- **A call takes its next step.** -/
theorem proceedData_sound {s t : Server K} (clean : Clean is s.store) (single : Single is)
    {call : DataCall} {pick : Nat} {stage : DataStage}
    (sound : call.stage.Sound B is s.store call.root)
    (taken : s.proceedData B call pick = some (stage, t)) : stage.Sound B is s.store call.root := by
  obtain ⟨root, old⟩ := call
  cases old with
  | checking =>
      cases taken
      split
      · exact sound_beginTraversal s.store root
      · trivial
  | sending =>
      simp only [Server.proceedData] at taken
      split at taken <;> cases taken <;> trivial
  | waiting receiver =>
      simp only [Server.proceedData] at taken
      split at taken
      · split at taken <;> cases taken
        · exact sound_beginTraversal s.store root
        · trivial
      · split at taken <;> cases taken
        trivial
  | traversing scan =>
      simp only [Server.proceedData, convertCid_toBytes] at taken
      have inv : ScanInv (visitBlock B s.store root) root scan := sound
      split at taken <;> cases taken
      · rename_i turned
        exact inv.turn turned
      · rename_i dag turned
        obtain ⟨seen, found⟩ := inv.ends turned
        obtain ⟨complete, dagOf⟩ := dagOf_of_found found
        refine ⟨dagOf.content complete clean single, ?_⟩
        intro b member
        obtain ⟨reach, stored⟩ := (dagOf.mem b).mp member
        obtain ⟨data, refs, found, accepted, -⟩ := complete b.1 reach
        rw [stored] at found
        rwa [← Option.some.inj found] at accepted
      · trivial
      · trivial
  | returned result => cases taken
  | lost => cases taken

end Sound

namespace Host

variable {K : Type} {deps : Deps K} {B : Blocks} {car : CarCodec} {is : Cid → Bytes → Prop}
  {h t : Host K}

structure Inv (deps : Deps K) (B : Blocks) (car : CarCodec) (is : Cid → Bytes → Prop)
    (h : Host K) : Prop where
  life : Server.LifeInv deps B car is h.server
  calls : ∀ call ∈ h.downloads, call.stage.Sound B is h.store call.root

theorem Inv.step (single : Single is) (inv : Inv deps B car is h) {input : HostInput K}
    (genuine : h.Genuine deps car is input) (taken : h.step deps B car input = some t) :
    (∀ cid data, h.store.get cid = some data → t.store.get cid = some data) ∧
      Inv deps B car is t := by
  cases input with
  | life input =>
      cases input with
      | server input =>
          obtain ⟨server, moved, rfl⟩ := Option.map_eq_some_iff.mp taken
          have own : Server.LifeGenuine deps car is h.server (.server input) := genuine
          obtain ⟨persists, life⟩ := inv.life.step single own moved
          exact ⟨persists.kept, life, fun call member => (inv.calls call member).grows persists.kept⟩
      | restart boot =>
          cases taken
          have own : Server.LifeGenuine deps car is h.server (.restart boot) := genuine
          obtain ⟨persists, life⟩ := inv.life.step single own rfl
          refine ⟨persists.kept, life, ?_⟩
          intro call member
          obtain ⟨old, listed, rfl⟩ := List.mem_map.mp member
          exact sound_cutOff ((inv.calls old listed).grows persists.kept)
  | download root =>
      cases taken
      refine ⟨fun _ _ => id, inv.life, ?_⟩
      intro call member
      rcases List.mem_append.mp member with old | new
      · exact inv.calls call old
      · obtain rfl := List.mem_singleton.mp new
        trivial
  | resume i pick =>
      simp only [Host.step] at taken
      split at taken
      · rename_i call listed
        obtain ⟨⟨stage, server⟩, proceeded, rfl⟩ := Option.map_eq_some_iff.mp taken
        have sound := proceedData_sound inv.life.server.clean single
          (inv.calls call (List.mem_of_getElem? listed)) proceeded
        obtain ⟨kept, life⟩ : (∀ cid data, h.store.get cid = some data →
            server.store.get cid = some data) ∧ Server.LifeInv deps B car is server := by
          rcases proceedData_server deps car proceeded with rfl | sent
          · exact ⟨fun _ _ => id, inv.life⟩
          · have own : Server.LifeGenuine deps car is h.server
                (.server (.node (.client (.getBitswap call.root .sync 0)))) := trivial
            obtain ⟨persists, life⟩ := inv.life.step single own sent
            exact ⟨persists.kept, life⟩
        refine ⟨kept, life, ?_⟩
        intro other member
        rcases List.mem_or_eq_of_mem_set member with old | rfl
        · exact (inv.calls other old).grows kept
        · exact sound.grows kept
      · cases taken

end Host

/-! ## Where the DAG is complete from the start -/

section WaitFree

variable {K : Type} {deps : Deps K} {B : Blocks} {car : CarCodec} {is : Cid → Bytes → Prop}
  {store : Store} {root : Cid}

/-- A call in a DAG that is complete in `store`: it asks nobody, and does not fail. -/
def DataStage.Smooth (B : Blocks) (store : Store) (root : Cid) : DataStage → Prop
  | .checking => True
  | .traversing scan => ScanInv (visitBlock B store root) root scan
  | .returned (.ok _) => True
  | _ => False

/-- The steps it has still to take. -/
def DataStage.toDo (B : Blocks) (store : Store) (root : Cid) : DataStage → Nat
  | .checking => dagFuel B store root + 1
  | .traversing scan => work (visitBlock B store root) store.cids.toFinset scan + 1
  | _ => 0

/-- **One step of such a call**, whatever has been stored in the meantime. -/
theorem smooth_proceedData (complete : Complete B store root) {s : Server K}
    (kept : ∀ cid data, store.get cid = some data → s.store.get cid = some data)
    {stage : DataStage} (smooth : stage.Smooth B store root) (pick : Nat) :
    (∃ dag, stage = .returned (.ok dag)) ∨
    ∃ next, s.proceedData B ⟨root, stage⟩ pick = some (next, s) ∧ next.Smooth B store root ∧
      next.toDo B store root + 1 ≤ stage.toDo B store root := by
  cases stage with
  | checking =>
      obtain ⟨data, -, stored, -⟩ := complete root .refl
      have has : s.store.has root = true := (s.store.has_iff root).mpr ⟨data, kept root data stored⟩
      refine .inr ⟨.traversing (.start root), ?_, inv_start root, ?_⟩
      · simp [Server.proceedData, has, beginTraversal]
      · simp only [DataStage.toDo, work_start, le_refl]
  | traversing scan =>
      have inv : ScanInv (visitBlock B store root) root scan := smooth
      have total := total_of_complete complete
      have same : scan.turn (visitBlock B s.store root) pick =
          scan.turn (visitBlock B store root) pick :=
        turn_of_extends inv total (visitBlock_extends kept)
      have finite : ∀ v entry, visitBlock B store root v = .ok entry → v ∈ store.cids.toFinset :=
        fun v entry visits => List.mem_toFinset.mpr (Store.mem_cids (visitBlock_ok visits).2.1)
      obtain ⟨next | dag, turned⟩ := turn_of_total (k := pick) inv total
      · refine .inr ⟨.traversing next, ?_, inv.turn turned, ?_⟩
        · simp [Server.proceedData, same, turned]
        · exact Nat.succ_le_succ (work_turn finite turned)
      · refine .inr ⟨.returned (.ok dag), ?_, trivial, ?_⟩
        · simp [Server.proceedData, same, turned]
        · exact Nat.succ_le_succ (Nat.zero_le _)
  | returned result =>
      cases result with
      | ok dag => exact .inl ⟨dag, rfl⟩
      | _ => exact smooth.elim
  | _ => exact smooth.elim

/-- The input is a step of call `k`. -/
def HostInput.resumes (k : Nat) : HostInput K → Bool
  | .resume i _ => i = k
  | _ => false

namespace Host

variable {h t : Host K} {k : Nat}

/-- Call `k` is for `root`, in a DAG that was complete in `store`. -/
def Serves (B : Blocks) (store : Store) (root : Cid) (k : Nat) (h : Host K) : Prop :=
  (∀ cid data, store.get cid = some data → h.store.get cid = some data) ∧
    ∃ stage, h.downloads[k]? = some ⟨root, stage⟩ ∧ stage.Smooth B store root

def toDo (B : Blocks) (store : Store) (root : Cid) (k : Nat) (h : Host K) : Nat :=
  (h.downloads[k]?.map fun call => call.stage.toDo B store root).getD 0

theorem Serves.step (complete : Complete B store root) (single : Single is)
    (inv : Inv deps B car is h) (serves : h.Serves B store root k) {input : HostInput K}
    (genuine : h.Genuine deps car is input) (ongoing : ∀ boot, input ≠ .life (.restart boot))
    (taken : h.step deps B car input = some t) :
    t.Serves B store root k ∧
      t.toDo B store root k + (if input.resumes k then 1 else 0) ≤ h.toDo B store root k := by
  obtain ⟨kept, stage, listed, smooth⟩ := serves
  obtain ⟨grows, -⟩ := inv.step single genuine taken
  have kept' : ∀ cid data, store.get cid = some data → t.store.get cid = some data :=
    fun cid data stored => grows cid data (kept cid data stored)
  -- The call itself is left alone by all inputs but its own.
  have alone (same : t.downloads[k]? = h.downloads[k]?) (other : input.resumes k = false) :
      t.Serves B store root k ∧
        t.toDo B store root k + (if input.resumes k then 1 else 0) ≤ h.toDo B store root k := by
    refine ⟨⟨kept', stage, same.trans listed, smooth⟩, ?_⟩
    simp [toDo, same, other]
  cases input with
  | life input =>
      cases input with
      | server input =>
          obtain ⟨server, -, rfl⟩ := Option.map_eq_some_iff.mp taken
          exact alone rfl rfl
      | restart boot => exact absurd rfl (ongoing boot)
  | download other =>
      cases taken
      exact alone (List.getElem?_append_left (List.getElem?_eq_some_iff.mp listed).1) rfl
  | resume i pick =>
      simp only [Host.step] at taken
      split at taken
      · rename_i call found
        obtain ⟨⟨next, server⟩, proceeded, rfl⟩ := Option.map_eq_some_iff.mp taken
        by_cases own : i = k
        · subst own
          obtain rfl : call = ⟨root, stage⟩ := Option.some.inj (found.symm.trans listed)
          rcases smooth_proceedData complete kept smooth pick with ⟨dag, rfl⟩ |
            ⟨next', proceeds, smooth', less⟩
          · cases proceeded
          · cases proceeds.symm.trans proceeded
            have now : (h.downloads.set i ⟨root, next⟩)[i]? = some ⟨root, next⟩ :=
              List.getElem?_set_self (List.getElem?_eq_some_iff.mp listed).1
            refine ⟨⟨kept', next, now, smooth'⟩, ?_⟩
            simpa [toDo, now, listed, HostInput.resumes] using less
        · refine alone (List.getElem?_set_ne own) ?_
          simpa [HostInput.resumes] using own
      · cases taken

/-- **A run of the host**: the call goes on, and its own steps bring it nearer to its end. -/
theorem Serves.run (complete : Complete B store root) (single : Single is)
    (inv : Inv deps B car is h) (serves : h.Serves B store root k) {inputs : List (HostInput K)}
    (genuine : Meets (Host.step deps B car) (Genuine deps car is) h inputs)
    (ongoing : ∀ boot, HostInput.life (.restart boot) ∉ inputs)
    (taken : exec (Host.step deps B car) h inputs = some t) :
    (Inv deps B car is t ∧ t.Serves B store root k) ∧
      t.toDo B store root k + inputs.countP (HostInput.resumes k) ≤ h.toDo B store root k := by
  have alive : Meets (Host.step deps B car) (fun _ input => ∀ boot, input ≠ .life (.restart boot)) h
      inputs := by
    apply meets_of_forall
    rintro input member - boot rfl
    exact ongoing boot member
  refine exec_potential (I := fun u : Host K => Inv deps B car is u ∧ u.Serves B store root k) ?_
    ⟨inv, serves⟩ (genuine.and alive) taken
  rintro u input v ⟨inv, serves⟩ ⟨genuine, ongoing⟩ taken
  obtain ⟨serves', less⟩ := serves.step complete single inv genuine ongoing taken
  exact ⟨⟨(inv.step single genuine taken).2, serves'⟩, less⟩

theorem inv_new (peerId : PeerId) (config : NetworkConfig) {store : Store}
    {indexProvider : Provider K} (blockstore : Cid → Option Ipld) (clean : Clean is store)
    (lawful : Lawful deps indexProvider.keypair) :
    Inv deps B car is
      (new (.new (.new (.new peerId config store indexProvider blockstore))) : Host K) where
  life := Server.lifeInv_new peerId config blockstore clean lawful
  calls := List.forall_mem_nil _

/-- **Downloads of what is there are wait-free.**  In any life of a host in which blocks that are
written are what their CIDs stand for, let `get_data` be called for a root whose DAG is complete
in the store.  As long as the process runs, and whatever else it does, the call has returned the
blocks of the root, or it can take its next step; and it takes no more steps than one for each
link in the store and three. -/
theorem downloads_are_wait_free (deps : Deps K) (B : Blocks) (car : CarCodec) (peerId : PeerId)
    (config : NetworkConfig) (store : Store) (indexProvider : Provider K)
    (blockstore : Cid → Option Ipld) (lawful : Lawful deps indexProvider.keypair)
    (is : Cid → Bytes → Prop) (single : Single is) (clean : Clean is store)
    (before : List (HostInput K)) (h : Host K)
    (life : exec (step deps B car)
      (new (.new (.new (.new peerId config store indexProvider blockstore)))) before = some h)
    (genuine : Meets (step deps B car) (Genuine deps car is)
      (new (.new (.new (.new peerId config store indexProvider blockstore)))) before)
    (root : Cid) (complete : Complete B h.store root) (after : List (HostInput K)) (t : Host K)
    (later : exec (step deps B car) h (.download root :: after) = some t)
    (genuine' : Meets (step deps B car) (Genuine deps car is) h (.download root :: after))
    (ongoing : ∀ boot, HostInput.life (.restart boot) ∉ after) :
    after.countP (HostInput.resumes h.downloads.length) ≤
        (h.store.cids.map (fanout (visitBlock B h.store root))).sum + 3 ∧
      ∃ stage, t.downloads[h.downloads.length]? = some ⟨root, stage⟩ ∧
        ((∃ dag, stage = .returned (.ok dag) ∧ ContentOf B is root dag) ∨
          ∀ pick, ∃ u, t.step deps B car (.resume h.downloads.length pick) = some u) := by
  have inv : Inv deps B car is h := exec_invariant
    (fun _ _ _ inv genuine taken => (inv.step single genuine taken).2)
    (inv_new peerId config blockstore clean lawful) genuine life
  obtain ⟨h₁, called, rest⟩ := (exec_cons_iff _).mp later
  have inv₁ : Inv deps B car is h₁ := (inv.step single genuine'.1 called).2
  cases called
  have begun : (h.downloads ++ [⟨root, .checking⟩])[h.downloads.length]? =
      some ⟨root, .checking⟩ := List.getElem?_concat_length
  obtain ⟨⟨invT, kept, stage, listed, smooth⟩, steps⟩ :=
    Serves.run complete single inv₁
      ⟨fun _ _ => id, _, begun, trivial⟩ (genuine'.2 _ rfl) ongoing rest
  constructor
  · have first : toDo B h.store root h.downloads.length
        { h with downloads := h.downloads ++ [⟨root, .checking⟩] } = dagFuel B h.store root + 1 := by
      simp [toDo, DataStage.toDo]
    rw [first, dagFuel] at steps
    omega
  · refine ⟨stage, listed, ?_⟩
    by_cases ended : ∃ dag, stage = .returned (.ok dag)
    · obtain ⟨dag, rfl⟩ := ended
      exact .inl ⟨dag, rfl, (invT.calls _ (List.mem_of_getElem? listed)).1⟩
    · right
      intro pick
      obtain ⟨next, proceeds, -⟩ :=
        (smooth_proceedData complete kept smooth pick).resolve_left ended
      exact ⟨_, by simp only [step, listed, proceeds, Option.map_some]; rfl⟩

/-! A file is uploaded, and downloaded while another block is stored. -/

def uploadFirst : List (HostInput Unit) := Server.uploadAndPublish.map .life

def walkWhileStoring : List (HostInput Unit) :=
  [.resume 0 0, .resume 0 0,
    .life (.server (.node (.insert UrsaService.sampleLeaf.1 UrsaService.sampleLeaf.2))),
    .resume 0 0, .resume 0 0]

theorem genuine_uploadFirst (h : Host Unit) :
    Meets (step plainDeps plainBlocks plainCar) (Genuine plainDeps plainCar Server.SampleBlock) h
      uploadFirst := by
  apply meets_of_forall
  intro input member h
  simp only [uploadFirst, Server.uploadAndPublish, List.map_cons, List.map_nil, List.mem_cons,
    List.not_mem_nil, or_false] at member
  rcases member with rfl | rfl | rfl | rfl | rfl | rfl | rfl | rfl | rfl
  · exact Server.sampleBlock_of_file Server.sampleFile (by simp)
  all_goals trivial

theorem downloads_are_wait_free_sample :
    ∃ (h t : Host Unit) (dag : List (Cid × Bytes)),
      exec (step plainDeps plainBlocks plainCar)
        (new (.new (.new (UrsaService.sampleService .empty)))) uploadFirst = some h ∧
      exec (step plainDeps plainBlocks plainCar) h
        (.download UrsaService.sampleRoot.1 :: walkWhileStoring) = some t ∧
      t.downloads[0]?.bind DataCall.data = some dag ∧
      ContentOf plainBlocks Server.SampleBlock UrsaService.sampleRoot.1 dag := by
  have evaluated : (exec (step plainDeps plainBlocks plainCar)
      (new (.new (.new (UrsaService.sampleService .empty)))) uploadFirst).map (fun h =>
        (h.downloads.length,
          (dagTraversal plainBlocks (fun _ _ => 0) h.store UrsaService.sampleRoot.1).isOk)) =
      some (0, true) := by decide +kernel
  have downloaded : (exec (step plainDeps plainBlocks plainCar)
      (new (.new (.new (UrsaService.sampleService .empty))))
        (uploadFirst ++ .download UrsaService.sampleRoot.1 :: walkWhileStoring)).map (fun t =>
          t.downloads[0]?.bind DataCall.data) =
      some (some [UrsaService.sampleRoot, UrsaService.sampleLeaf]) := by decide +kernel
  obtain ⟨h, life, facts⟩ := Option.map_eq_some_iff.mp evaluated
  simp only [Prod.mk.injEq] at facts
  obtain ⟨none, traversed⟩ := facts
  obtain ⟨t, whole, data⟩ := Option.map_eq_some_iff.mp downloaded
  obtain ⟨h', life', later⟩ := (exec_append_iff _).mp whole
  obtain rfl : h = h' := Option.some.inj (life.symm.trans life')
  have complete : Complete plainBlocks h.store UrsaService.sampleRoot.1 :=
    (dagTraversal_ok_iff fun _ _ => 0).mp (Outcome.isOk_iff.mp traversed)
  have genuine : Meets (step plainDeps plainBlocks plainCar)
      (Genuine plainDeps plainCar Server.SampleBlock) h
      (.download UrsaService.sampleRoot.1 :: walkWhileStoring) := by
    apply meets_of_forall
    intro input member h
    simp only [walkWhileStoring, List.mem_cons, List.not_mem_nil, or_false] at member
    rcases member with rfl | rfl | rfl | rfl | rfl | rfl
    case inr.inr.inr.inl =>
      exact List.mem_cons_of_mem _ List.mem_cons_self
    all_goals trivial
  obtain ⟨-, stage, listed, ends⟩ := downloads_are_wait_free plainDeps plainBlocks plainCar _ _ _ _ _
    plainDeps_lawful _ Server.sampleBlock_single Server.sampleBlock_clean uploadFirst h life
    (genuine_uploadFirst _) _ complete walkWhileStoring t later genuine (by simp [walkWhileStoring])
  rw [none] at listed ends
  rw [listed, Option.bind_some] at data
  have returned := DataCall.returned_of_data data
  simp only at returned
  subst returned
  rcases ends with ⟨dag, same, content⟩ | more
  · cases same
    exact ⟨h, t, _, life, later, by simp [listed, DataCall.data], content⟩
  · obtain ⟨u, taken⟩ := more 0
    simp [step, listed, Server.proceedData] at taken

end Host

end WaitFree

/-! ## A net of hosts -/

section Net

variable {ι K : Type} [DecidableEq ι] (deps : Deps K) (B : Blocks) (car : CarCodec)

/-- Some host takes an input. -/
def Net.step (net : ι → Host K) (input : ι × HostInput K) : Option (ι → Host K) :=
  ((net input.1).step deps B car input.2).map (Function.update net input.1)

/-- What a client of `GET /:cid` gets: the body of a response with status 200. -/
inductive Obtained (car : CarCodec) (call : DataCall) (file : Bytes) : Prop where
  | http (fromStr : String → Option Cid) (display : ApiError → String) (text : String)
      (result : Outcome ApiError (List (Cid × Bytes))) (response : StreamResponse)
      (parsed : fromStr text = some call.root) (returned : call.stage = .returned result)
      (answered : getHandler fromStr display (fun root => streamOf car root result) text =
        .ok response)
      (body : response.body = .ok file) : Obtained car call file

variable {deps B car} {is : Cid → Bytes → Prop}

theorem Obtained.written {call : DataCall} {file : Bytes} (obtained : Obtained car call file) :
    ∃ dag, call.stage = .returned (.ok dag) ∧
      car.writeStream (carHeader call.root) dag = .ok file := by
  obtain ⟨fromStr, display, text, result, response, parsed, returned, answered, body⟩ := obtained
  simp only [getHandler, parsed] at answered
  split at answered
  · rename_i streamed made
    split at answered <;> cases answered
    cases result with
    | ok dag =>
        cases made
        rw [carBlocks_eq] at body
        exact ⟨dag, returned, body⟩
    | err e => cases made
    | panic m => cases made
    | diverge => cases made
  · cases answered
  · cases answered
  · cases answered

/-- Whatever a call has returned, a client can get. -/
theorem obtained_of_returned {call : DataCall} {dag : List (Cid × Bytes)} {file : Bytes}
    (returned : call.stage = .returned (.ok dag))
    (written : car.writeStream (carHeader call.root) dag = .ok file) : Obtained car call file := by
  have disposition : headerValue ("attachment; filename=\"" ++ "" ++ ".car\"") =
      some "attachment; filename=\".car\"" := by decide
  have streamed : streamOf car call.root (.ok dag) = .ok (.ok file) := by
    simp [streamOf, carBlocks_eq, written]
  refine .http (fun _ => some call.root) (fun _ => "") "" (.ok dag)
    ⟨"application/vnd.curl.car; charset=utf-8", "attachment; filename=\".car\"", .ok file⟩
    rfl returned ?_ rfl
  simp only [getHandler, streamed, disposition]

/-- **Downloads agree.**  Take any number of hosts with stores of their own, and any run in which
their inputs interleave and the blocks that are written are what their CIDs stand for: uploads,
queries, replies, restarts.  Every file that a client gets of a root, of whichever host and
however the call went, is read as exactly the blocks of that root.  So any two clients that got
a file of one root got the same blocks. -/
theorem downloads_agree (deps : Deps K) (B : Blocks) (car : CarCodec)
    (roundTrips : car.RoundTrips B) (peerId : ι → PeerId) (config : ι → NetworkConfig)
    (store : ι → Store) (indexProvider : ι → Provider K) (blockstore : ι → Cid → Option Ipld)
    (lawful : ∀ i, Lawful deps (indexProvider i).keypair) (is : Cid → Bytes → Prop)
    (single : Single is) (clean : ∀ i, Clean is (store i)) (inputs : List (ι × HostInput K))
    (net : ι → Host K)
    (run : exec (Net.step deps B car) (fun i => .new (.new (.new
      (.new (peerId i) (config i) (store i) (indexProvider i) (blockstore i))))) inputs = some net)
    (genuine : Meets (Net.step deps B car)
      (fun net input => (net input.1).Genuine deps car is input.2) (fun i => .new (.new (.new
        (.new (peerId i) (config i) (store i) (indexProvider i) (blockstore i))))) inputs) :
    (∀ i, ∀ call ∈ (net i).downloads, ∀ file, Obtained car call file →
      ∃ dag, car.loadCar file = (dag, .ok [call.root]) ∧ ContentOf B is call.root dag) ∧
    ∀ i j, ∀ call ∈ (net i).downloads, ∀ call' ∈ (net j).downloads, call.root = call'.root →
      ∀ file file', Obtained car call file → Obtained car call' file' →
        (car.loadCar file).1.Perm (car.loadCar file').1 := by
  have inv : ∀ i, Host.Inv deps B car is (net i) := by
    refine exec_invariant (I := fun net : ι → Host K => ∀ i, Host.Inv deps B car is (net i)) ?_
      (fun i => Host.inv_new (peerId i) (config i) (blockstore i) (clean i) (lawful i)) genuine run
    intro net input net' inv genuine taken i
    obtain ⟨host, moved, rfl⟩ := Option.map_eq_some_iff.mp taken
    by_cases own : i = input.1
    · subst own
      rw [Function.update_self]
      exact ((inv input.1).step single genuine moved).2
    · rw [Function.update_of_ne own]
      exact inv i
  have holds : ∀ i, ∀ call ∈ (net i).downloads, ∀ file, Obtained car call file →
      ∃ dag, car.loadCar file = (dag, .ok [call.root]) ∧ ContentOf B is call.root dag := by
    intro i call member file obtained
    obtain ⟨dag, returned, written⟩ := obtained.written
    have sound := (inv i).calls call member
    rw [returned] at sound
    obtain ⟨content, accepted⟩ := sound
    obtain ⟨file', written', loaded⟩ := roundTrips [call.root] dag (List.cons_ne_nil _ _) accepted
    obtain rfl : file = file' := Except.ok.inj (written.symm.trans written')
    exact ⟨dag, loaded, content⟩
  refine ⟨holds, ?_⟩
  intro i j call member call' member' same file file' obtained obtained'
  obtain ⟨dag, loaded, content⟩ := holds i call member file obtained
  obtain ⟨dag', loaded', content'⟩ := holds j call' member' file' obtained'
  rw [loaded, loaded']
  rw [← same] at content'
  exact content.perm content'

/-! One host has been sent the file, another one gets its blocks from somewhere, one of them
while it is being downloaded. -/

def twoDownloads : List (Bool × HostInput Unit) :=
  Host.uploadFirst.map (Prod.mk true) ++
    [(false, .life (.server (.node (.insert UrsaService.sampleRoot.1 UrsaService.sampleRoot.2)))),
      (false, .download UrsaService.sampleRoot.1), (false, .resume 0 0), (false, .resume 0 0),
      (true, .download UrsaService.sampleRoot.1), (true, .resume 0 0), (true, .resume 0 0),
      (false, .life (.server (.node (.insert UrsaService.sampleLeaf.1 UrsaService.sampleLeaf.2)))),
      (false, .resume 0 0), (true, .resume 0 0), (true, .resume 0 0), (false, .resume 0 0)]

theorem downloads_agree_two_hosts :
    ∃ (net : Bool → Host Unit) (call call' : DataCall) (file file' : Bytes),
      exec (Net.step plainDeps plainBlocks plainCar)
        (fun _ => .new (.new (.new (UrsaService.sampleService .empty)))) twoDownloads = some net ∧
      call ∈ (net true).downloads ∧ call' ∈ (net false).downloads ∧
      Obtained plainCar call file ∧ Obtained plainCar call' file' ∧
      (∃ dag, plainCar.loadCar file = (dag, .ok [UrsaService.sampleRoot.1]) ∧
        ContentOf plainBlocks Server.SampleBlock UrsaService.sampleRoot.1 dag) ∧
      (plainCar.loadCar file).1.Perm (plainCar.loadCar file').1 := by
  have evaluated : (exec (Net.step plainDeps plainBlocks plainCar)
      (fun _ => .new (.new (.new (UrsaService.sampleService .empty)))) twoDownloads).map (fun net =>
        [true, false].all fun i => (net i).downloads.any fun call =>
          call.root = UrsaService.sampleRoot.1 &&
            call.data = some [UrsaService.sampleRoot, UrsaService.sampleLeaf]) = some true := by
    decide +kernel
  obtain ⟨net, run, facts⟩ := Option.map_eq_some_iff.mp evaluated
  have genuine : Meets (Net.step plainDeps plainBlocks plainCar)
      (fun net input => (net input.1).Genuine plainDeps plainCar Server.SampleBlock input.2)
      (fun _ => .new (.new (.new (UrsaService.sampleService .empty)))) twoDownloads := by
    apply meets_of_forall
    intro input member net
    simp only [twoDownloads, Host.uploadFirst, Server.uploadAndPublish, List.map_cons, List.map_nil,
      List.cons_append, List.nil_append, List.mem_cons, List.not_mem_nil, or_false] at member
    rcases member with rfl | rfl | rfl | rfl | rfl | rfl | rfl | rfl | rfl | rfl | rfl | rfl | rfl |
      rfl | rfl | rfl | rfl | rfl | rfl | rfl | rfl
    · exact Server.sampleBlock_of_file Server.sampleFile (by simp)
    case inr.inr.inr.inr.inr.inr.inr.inr.inr.inl => exact List.mem_cons_self
    case inr.inr.inr.inr.inr.inr.inr.inr.inr.inr.inr.inr.inr.inr.inr.inr.inl =>
      exact List.mem_cons_of_mem _ List.mem_cons_self
    all_goals trivial
  obtain ⟨holds, agree⟩ := downloads_agree plainDeps plainBlocks plainCar
    (plainCar_roundTrips plainBlocks) _ _ _ _ _ (fun _ => plainDeps_lawful) _
    Server.sampleBlock_single (fun _ => Server.sampleBlock_clean) twoDownloads net run genuine
  have listed : ∀ i, ∃ call ∈ (net i).downloads, call.root = UrsaService.sampleRoot.1 ∧
      call.stage = .returned (.ok [UrsaService.sampleRoot, UrsaService.sampleLeaf]) := by
    intro i
    have served := List.all_eq_true.mp facts i (by cases i <;> simp)
    obtain ⟨call, member, isCall⟩ := List.any_eq_true.mp served
    simp only [Bool.and_eq_true, decide_eq_true_eq] at isCall
    exact ⟨call, member, isCall.1, DataCall.returned_of_data isCall.2⟩
  obtain ⟨call, member, root, returned⟩ := listed true
  obtain ⟨call', member', root', returned'⟩ := listed false
  have got : Obtained plainCar call _ := obtained_of_returned returned rfl
  have got' : Obtained plainCar call' _ := obtained_of_returned returned' rfl
  refine ⟨net, call, call', _, _, run, member, member', got, got', ?_, ?_⟩
  · rw [← root]
    exact holds true call member _ got
  · exact agree true false call member call' member' (root.trans root'.symm) _ _ got got'

end Net

end Ursa.Rpc

/-
# IndexProvider.Interleaving — the provider's operations, access by access

In `ursa-index-provider/src/provider.rs` every operation takes its locks one after the
other and changes the shared state between two acquisitions: `publish` has taken the head
out before it asks for the pending advertisements.  `Operation.script` says what happens
behind which lock.  Operations of any number of tasks run in any interleaving, and some may
wait for each other for ever.

* `provider_operations_are_atomic` — what a run has done is what the operations that have
  returned do one after the other, as the functions of `Provider` compute it.
* `served_heads_stay_readable` — a head that was served can be followed to the end at any
  later time, whatever fails meanwhile.
-/
import Ursa.Theory.TwoPhase
import Ursa.IndexProvider.Locks
import Ursa.IndexProvider.SignedHead

namespace Ursa.IndexProvider

set_option autoImplicit false

open Ursa.Theory (Outcome)
open Ursa.Theory.Run
open Ursa.Theory.Locks
open Ursa.Theory.LinkedChain
open Ursa.Theory.TwoPhase

/-- What a lock protects. -/
def Cell : Lock → Type
  | .head => Option Cid
  | .tempAds => Nat → Option Advertisement
  | .blockstore => Cid → Option Ipld

def Shared.cells (s : Shared) : ∀ lock, Cell lock
  | .head => s.head
  | .tempAds => s.tempAds
  | .blockstore => s.blockstore

/-- What an operation returns. -/
inductive Result where
  | created (result : Outcome ProviderErr Nat)
  | added (result : Outcome ProviderErr Unit)
  | published (result : Outcome ProviderErr Unit)
  | announced (result : Outcome String Message)
  | head (result : Except ProviderError SignedHead)
  | block (result : Except ProviderError Bytes)

section Scripts

variable {K P : Type} (deps : Deps K) (lib : HeadLib K P) (p : Provider K)

def createScript (ad : Advertisement) (id : Nat) : Script Cell Result :=
  .acquire .tempAds .write fun (tempAds : Nat → Option Advertisement) =>
    .write .tempAds (Function.update tempAds id (some { ad with entries := none })) <|
      .ret (.created (.ok id))

def addChunkScript (bytes : Bytes) (id : Nat) (fault : Option String) : Script Cell Result :=
  match deps.fromSlice bytes with
  | .error _ => .ret (.added (.panic "called `Result::unwrap()` on an `Err` value"))
  | .ok entries =>
      .acquire .blockstore .write fun (blockstore : Cid → Option Ipld) =>
      .acquire .tempAds .write fun (tempAds : Nat → Option Advertisement) =>
      match tempAds id with
      | none => .ret (.added (.err .adNotFound))
      | some ad =>
          let chunk := EntryChunk.new entries ad.entries
          match deps.objCid chunk.toIpld, fault with
          | none, _ => .ret (.added (.err (.putObj "serialisation failed")))
          | some _, some reason => .ret (.added (.err (.putObj reason)))
          | some cid, none =>
              .write .blockstore (Function.update blockstore cid (some chunk.toIpld)) <|
              .write .tempAds (Function.update tempAds id
                (some { ad with entries := some (.link (convertCid cid.toBytes)) })) <|
              .ret (.added (.ok ()))

def publishScript (id : Nat) (faults : WriteFaults) : Script Cell Result :=
  .acquire .head .write fun (currentHead : Option Cid) =>
  .write .head (none : Option Cid) <|
  .acquire .tempAds .write fun (tempAds : Nat → Option Advertisement) =>
  match tempAds id with
  | none => .ret (.published (.err .adNotFound))
  | some ad =>
      .write .tempAds (Function.update tempAds id none) <|
      .acquire .blockstore .write fun (blockstore : Cid → Option Ipld) =>
      match ad.seal deps p.keypair currentHead with
      | .error e => .ret (.published (.err (.signature e)))
      | .ok ad =>
          match faults.toIpld with
          | some reason => .ret (.published (.err (.toIpld reason)))
          | none =>
              match deps.objCid ad.toIpld, faults.putObj with
              | none, _ => .ret (.published (.err (.putObj "serialisation failed")))
              | some _, some reason => .ret (.published (.err (.putObj reason)))
              | some cid, none =>
                  .write .blockstore (Function.update blockstore cid (some ad.toIpld)) <|
                  .write .head (some cid) <|
                  .ret (.published (.ok ()))

def createAnnounceMsgScript (peerId : PeerId) : Script Cell Result :=
  match deps.multiaddrFromStr p.config.domain with
  | .error reason => .ret (.announced (.err reason))
  | .ok domain =>
      match deps.multiaddrFromStr (domain.toString ++ "/http/p2p/" ++ peerId.toBase58) with
      | .error reason => .ret (.announced (.err reason))
      | .ok address =>
          .acquire .head .read fun (head : Option Cid) =>
            match head with
            | none => .ret (.announced (.panic "no head found for announcement"))
            | some head => .ret (.announced (.ok { cid := head, addrs := [address] }))

def headScript : Script Cell Result :=
  .acquire .head .read fun (head : Option Cid) =>
    match head with
    | some head =>
        match SignedHead.new lib p.keypair head with
        | .ok signedHead => .ret (.head (.ok signedHead))
        | .error e => .ret (.head (.error (.internalError e)))
    | none => .ret (.head (.error (.notFoundError "No head found")))

def getBlockScript (cid : String) : Script Cell Result :=
  match deps.cidFromStr cid with
  | .error reason => .ret (.block (.error (.internalError reason)))
  | .ok cid =>
      .acquire .blockstore .read fun (blockstore : Cid → Option Ipld) =>
        match blockstore cid with
        | some o => .ret (.block (.ok (deps.objBytes o)))
        | none => .ret (.block (.error (.notFoundError "Block not found")))

def Operation.script : Operation → Script Cell Result
  | .create ad id => createScript ad id
  | .addChunk bytes id fault => addChunkScript deps bytes id fault
  | .publish id faults => publishScript deps p id faults
  | .createAnnounceMsg peerId => createAnnounceMsgScript deps p peerId
  | .head => headScript lib p
  | .getBlock cid => getBlockScript deps cid

/-- What the operation returns when it runs alone. -/
def Operation.result (s : Shared) : Operation → Result
  | .create ad id => .created (IndexProvider.create ad id s).1
  | .addChunk bytes id fault => .added (IndexProvider.addChunk deps fault bytes id s).1
  | .publish id faults => .published (IndexProvider.publish deps p faults id s).1
  | .createAnnounceMsg peerId => .announced (IndexProvider.createAnnounceMsg deps p peerId s)
  | .head => .head (headHandler lib p s)
  | .getBlock cid => .block (IndexProvider.getBlock deps cid s)

/-! ## The scripts compute the operations -/

theorem cells_head (s : Shared) (head : Option Cid) :
    Function.update s.cells .head head = Shared.cells { s with head } := by
  funext lock
  cases lock <;> rfl

theorem cells_tempAds (s : Shared) (tempAds : Nat → Option Advertisement) :
    Function.update s.cells .tempAds tempAds = Shared.cells { s with tempAds } := by
  funext lock
  cases lock <;> rfl

theorem cells_blockstore (s : Shared) (blockstore : Cid → Option Ipld) :
    Function.update s.cells .blockstore blockstore = Shared.cells { s with blockstore } := by
  funext lock
  cases lock <;> rfl

/-- **A script alone is the operation**: the same result and the same change. -/
theorem script_run (s : Shared) (operation : Operation) :
    (operation.script deps lib p).run s.cells =
      (operation.result deps lib p s, (operation.effect deps p s).cells) := by
  cases operation with
  | create ad id =>
      simp only [Operation.script, createScript, Script.run, cells_tempAds]
      rfl
  | addChunk bytes id fault =>
      simp only [Operation.script, addChunkScript, Operation.result, Operation.effect, addChunk]
      cases decoded : deps.fromSlice bytes with
      | error reason => rfl
      | ok entries =>
          simp only [Script.run, Shared.cells]
          cases pending : s.tempAds id with
          | none => rfl
          | some ad =>
              simp only [putObj]
              cases addressed : deps.objCid (EntryChunk.new entries ad.entries).toIpld with
              | none => rfl
              | some cid =>
                  cases fault with
                  | some reason => rfl
                  | none => simp only [Script.run, cells_blockstore, cells_tempAds]
  | publish id faults =>
      have clone : (p.clone).keypair = p.keypair := rfl
      simp only [Operation.script, publishScript, Operation.result, Operation.effect, publish,
        Script.run, cells_head, clone]
      simp only [Shared.cells]
      cases pending : s.tempAds id with
      | none => rfl
      | some ad =>
          simp only [Script.run, cells_tempAds, putObj]
          simp only [Shared.cells]
          cases ad.seal deps p.keypair s.head with
          | error e => rfl
          | ok sealed =>
              dsimp only
              cases faults.toIpld with
              | some reason => rfl
              | none =>
                  dsimp only
                  cases addressed : deps.objCid sealed.toIpld with
                  | none => rfl
                  | some cid =>
                      cases faults.putObj with
                      | some reason => rfl
                      | none =>
                          -- what the history remembers is behind no lock
                          simp only [Script.run, cells_blockstore, cells_head]
                          rfl
  | createAnnounceMsg peerId =>
      simp only [Operation.script, createAnnounceMsgScript, Operation.result, Operation.effect,
        createAnnounceMsg]
      cases deps.multiaddrFromStr p.config.domain with
      | error reason => rfl
      | ok domain =>
          dsimp only
          cases deps.multiaddrFromStr (domain.toString ++ "/http/p2p/" ++ peerId.toBase58) with
          | error reason => rfl
          | ok address =>
              simp only [Script.run, Shared.cells]
              cases s.head <;> rfl
  | head =>
      simp only [Operation.script, headScript, Operation.result, Operation.effect, headHandler,
        Script.run, Shared.cells]
      cases s.head with
      | none => rfl
      | some head => cases made : SignedHead.new lib p.keypair head <;> simp only [made] <;> rfl
  | getBlock cid =>
      simp only [Operation.script, getBlockScript, Operation.result, Operation.effect, getBlock]
      cases deps.cidFromStr cid with
      | error reason => rfl
      | ok cid =>
          simp only [Script.run, Shared.cells]
          cases s.blockstore cid <;> rfl

/-- Every operation takes each lock once and writes only to what it has locked. -/
theorem script_disciplined (operation : Operation) :
    (operation.script deps lib p).Disciplined [] := by
  cases operation with
  | create ad id => simp [Operation.script, createScript, Script.Disciplined]
  | addChunk bytes id fault =>
      simp only [Operation.script, addChunkScript]
      split
      · trivial
      · refine ⟨by simp, fun blockstore => ⟨by simp, fun tempAds => ?_⟩⟩
        dsimp only
        repeat' split
        all_goals simp [Script.Disciplined]
  | publish id faults =>
      refine ⟨by simp, fun currentHead => ⟨by simp, by simp, fun tempAds => ?_⟩⟩
      dsimp only
      split
      · trivial
      · refine ⟨by simp, by simp, fun blockstore => ?_⟩
        dsimp only
        repeat' split
        all_goals simp [Script.Disciplined]
  | createAnnounceMsg peerId =>
      simp only [Operation.script, createAnnounceMsgScript]
      repeat' split
      · trivial
      · trivial
      · refine ⟨by simp, fun head => ?_⟩
        dsimp only
        split <;> trivial
  | head =>
      refine ⟨by simp, fun head => ?_⟩
      dsimp only
      repeat' split
      all_goals trivial
  | getBlock cid =>
      simp only [Operation.script, getBlockScript]
      split
      · trivial
      · refine ⟨by simp, fun blockstore => ?_⟩
        dsimp only
        split <;> trivial

/-! ## Atomicity -/

/-- The provider's cells and the tasks that run on its clones. -/
abbrev Running := System Cell Result Operation

/-- A new task, or the next access of one. -/
abbrev Access := Theory.TwoPhase.Action Operation

/-- The provider after these operations, one after the other. -/
def serially (s : Shared) (operations : List Operation) : Shared :=
  operations.foldl (Operation.effect deps p) s

theorem serially_append (s : Shared) (first second : List Operation) :
    serially deps p s (first ++ second) = serially deps p (serially deps p s first) second :=
  List.foldl_append ..

/-- A log replayed access by access is the operations one after the other. -/
theorem serially_of_replay {s : Shared} {log : List (Operation × Result)}
    {cells : ∀ lock, Cell lock}
    (replay : Replay (Operation.script deps lib p) s.cells log cells) :
    cells = (serially deps p s (log.map Prod.fst)).cells ∧
      ∀ before operation result later, log = before ++ (operation, result) :: later →
        result = operation.result deps lib p (serially deps p s (before.map Prod.fst)) := by
  induction replay with
  | nil => exact ⟨rfl, by simp⟩
  | snoc earlier returns ih =>
      rename_i log before after operation result
      obtain ⟨same, results⟩ := ih
      rw [same, script_run] at returns
      obtain ⟨own, rfl⟩ := Prod.mk.inj returns
      refine ⟨by simp [serially], ?_⟩
      intro before' operation' result' later split
      rcases List.eq_nil_or_concat later with rfl | ⟨later, last, rfl⟩
      · obtain ⟨rfl, one⟩ := List.append_inj' split rfl
        obtain ⟨rfl, rfl⟩ := Prod.mk.inj (List.singleton_inj.mp one)
        exact own.symm
      · have shorter : log = before' ++ (operation', result') :: later := by
          rw [List.concat_eq_append, ← List.cons_append, ← List.append_assoc] at split
          exact (List.append_inj' split rfl).1
        exact results before' operation' result' later shorter

/-- **The provider's operations are atomic.**  In every interleaving of their accesses, each
operation that has returned has returned what it returns when all of them run one after the
other in the order of their returns; and what is not locked for writing is as that leaves it. -/
theorem provider_operations_are_atomic (blockstore : Cid → Option Ipld)
    (accesses : List Access) (s : Running)
    (run : exec (System.step (Operation.script deps lib p))
      (System.new (Shared.new blockstore).cells) accesses = some s) :
    (∀ before operation result later, s.log = before ++ (operation, result) :: later →
      result = operation.result deps lib p
        (serially deps p (Shared.new blockstore) (before.map Prod.fst))) ∧
    (∀ lock, s.Settled lock →
      s.cells lock = (serially deps p (Shared.new blockstore) (s.log.map Prod.fst)).cells lock) ∧
    ((∀ t ∈ s.tasks, t.rest = none) →
      s.cells = (serially deps p (Shared.new blockstore) (s.log.map Prod.fst)).cells) := by
  obtain ⟨serial, replay, settled, quiet⟩ :=
    serializable _ (script_disciplined deps lib p) _ accesses s run
  obtain ⟨rfl, results⟩ := serially_of_replay deps lib p replay
  exact ⟨results, settled, quiet⟩

end Scripts

/-! ## Reading on from a head -/

section Reading

variable {K P : Type} {deps : Deps K} {lib : HeadLib K P} {p : Provider K}

/-- Following `PreviousID` from `head` visits `ads`, newest first, and the chunks of each of
them are there. -/
structure ReadsAs (deps : Deps K) (blockstore : Cid → Option Ipld) (head : Option Cid)
    (ads : List (Cid × Advertisement)) : Prop where
  walk : Walk (Ipld.linkAt "PreviousID") blockstore head (ads.map fun e => (e.1, e.2.toIpld))
  addressed : ∀ e ∈ ads, deps.objCid e.2.toIpld = some e.1
  chunks : ∀ e ∈ ads, HasChunks deps blockstore e.2

namespace ReadsAs

variable {blockstore blockstore' : Cid → Option Ipld} {head : Option Cid}
  {ads : List (Cid × Advertisement)}

theorem nil : ReadsAs deps blockstore none [] := ⟨rfl, by simp, by simp⟩

theorem addressed_objects (reads : ReadsAs deps blockstore head ads) :
    ∀ e ∈ ads.map (fun e => (e.1, e.2.toIpld)), deps.objCid e.2 = some e.1 := by
  intro e member
  obtain ⟨x, listed, rfl⟩ := List.mem_map.mp member
  exact reads.addressed x listed

theorem keep (reads : ReadsAs deps blockstore head ads)
    (keeps : Keeps deps.objCid blockstore blockstore') : ReadsAs deps blockstore' head ads where
  walk := reads.walk.keep reads.addressed_objects keeps
  addressed := reads.addressed
  chunks e member := (reads.chunks e member).keep keeps

/-- An advertisement that links to the head goes in front. -/
theorem cons (collisionFree : CollisionFree deps.objCid) (reads : ReadsAs deps blockstore head ads)
    {ad : Advertisement} {cid : Cid} (own : deps.objCid ad.toIpld = some cid)
    (links : ad.previousID.bind Ipld.asLink = head) (has : HasChunks deps blockstore ad) :
    ReadsAs deps (Function.update blockstore cid (some ad.toIpld)) (some cid) ((cid, ad) :: ads) where
  walk := reads.walk.put_cons collisionFree reads.addressed_objects own (by simpa using links)
  addressed e member := by
    rcases List.mem_cons.mp member with rfl | member
    · exact own
    · exact reads.addressed e member
  chunks e member := by
    rcases List.mem_cons.mp member with rfl | member
    · exact has.keep (.put collisionFree own)
    · exact (reads.chunks e member).keep (.put collisionFree own)

end ReadsAs

/-- Writes go under the CID of what is written, so nothing that is stored is lost. -/
theorem keeps_addChunk (collisionFree : CollisionFree deps.objCid) (fault : Option String)
    (bytes : Bytes) (id : Nat) (s : Shared) :
    Keeps deps.objCid s.blockstore (addChunk deps fault bytes id s).2.blockstore := by
  rcases addChunk_cases deps fault bytes id s with ⟨_, _, _, -, -, -, own, result⟩ | ⟨-, unchanged⟩
  · rw [result]
    exact .put collisionFree own
  · rw [unchanged]
    exact .refl

theorem keeps_publish (collisionFree : CollisionFree deps.objCid) (faults : WriteFaults) (id : Nat)
    (s : Shared) : Keeps deps.objCid s.blockstore (publish deps p faults id s).2.blockstore := by
  rcases publish_cases deps p faults id s with
    ⟨_, _, publishes, result⟩ | ⟨-, result⟩ | ⟨-, -, _, result⟩
  · rw [result]
    exact .put collisionFree publishes.addressed
  · rw [result]
    exact .refl
  · rw [result]
    exact .refl

/-- The head can be followed to the end, and the chunks of what is pending are there.  Unlike
`ChainInv` this survives publishes that fail. -/
structure Readable (deps : Deps K) (s : Shared) : Prop where
  head : ∃ ads, ReadsAs deps s.blockstore s.head ads
  pending : ∀ id ad, s.tempAds id = some ad → HasChunks deps s.blockstore ad

namespace Readable

variable {s : Shared}

theorem start (blockstore : Cid → Option Ipld) : Readable deps (Shared.new blockstore) where
  head := ⟨[], .nil⟩
  pending := by simp [Shared.new]

theorem setPending (readable : Readable deps s) (id : Nat) (pending : Option Advertisement)
    (has : ∀ ad, pending = some ad → HasChunks deps s.blockstore ad) :
    Readable deps { s with tempAds := Function.update s.tempAds id pending } where
  head := readable.head
  pending id' ad found := by
    by_cases same : id' = id
    · subst same
      exact has ad (by simpa using found)
    · exact readable.pending id' ad (by simpa [Function.update_of_ne same] using found)

/-- A blockstore that keeps what is stored keeps everything readable. -/
theorem keep (readable : Readable deps s) {blockstore : Cid → Option Ipld}
    (keeps : Keeps deps.objCid s.blockstore blockstore) : Readable deps { s with blockstore } where
  head := by
    obtain ⟨ads, reads⟩ := readable.head
    exact ⟨ads, reads.keep keeps⟩
  pending id ad found := (readable.pending id ad found).keep keeps

theorem dropHead (readable : Readable deps s) : Readable deps { s with head := none } where
  head := ⟨[], .nil⟩
  pending := readable.pending

/-- **One operation**, whatever it returns: what can be read stays readable, and nothing
that is stored is lost. -/
theorem effect (collisionFree : CollisionFree deps.objCid) (readable : Readable deps s)
    (operation : Operation) :
    Readable deps (operation.effect deps p s) ∧
      Keeps deps.objCid s.blockstore (operation.effect deps p s).blockstore := by
  cases operation with
  | create ad id =>
      refine ⟨readable.setPending id _ ?_, .refl⟩
      intro _ same
      cases same
      exact ⟨[], .nil⟩
  | addChunk bytes id fault =>
      refine ⟨?_, keeps_addChunk collisionFree fault bytes id s⟩
      rw [Operation.effect]
      rcases addChunk_cases deps fault bytes id s with
        ⟨entries, ad, cid, -, pending, -, own, result⟩ | ⟨-, unchanged⟩
      · rw [result]
        apply (readable.keep (.put collisionFree own)).setPending
        intro _ same
        cases same
        obtain ⟨chunks, chain⟩ := readable.pending id ad pending
        exact ⟨_, chain.cons collisionFree own rfl⟩
      · rw [unchanged]
        exact readable
  | publish id faults =>
      refine ⟨?_, keeps_publish collisionFree faults id s⟩
      rw [Operation.effect]
      rcases publish_cases deps p.clone faults id s with
        ⟨ad, cid, publishes, result⟩ | ⟨-, result⟩ | ⟨-, -, e, result⟩
      · obtain ⟨pending, found, sealing⟩ := publishes.sealed
        obtain ⟨sig, rfl⟩ := Advertisement.seal_eq sealing
        obtain ⟨ads, reads⟩ := readable.head
        have own := publishes.addressed
        have has : HasChunks deps s.blockstore pending := readable.pending id pending found
        have stored := (readable.keep (.put collisionFree own)).setPending id none (by simp)
        rw [result]
        exact ⟨⟨_, reads.cons collisionFree own (by simp) has⟩, stored.pending⟩
      · rw [result]
        exact readable.dropHead
      · rw [result]
        exact readable.dropHead.setPending id none (by simp)
  | _ => exact ⟨readable, .refl⟩

/-- Any number of operations, one after the other. -/
theorem serially (collisionFree : CollisionFree deps.objCid) (readable : Readable deps s)
    (operations : List Operation) :
    Readable deps (serially deps p s operations) ∧
      Keeps deps.objCid s.blockstore (IndexProvider.serially deps p s operations).blockstore := by
  induction operations generalizing s with
  | nil => exact ⟨readable, .refl⟩
  | cons operation rest ih =>
      obtain ⟨readable', keeps⟩ := readable.effect (p := p) collisionFree operation
      obtain ⟨readable'', keeps'⟩ := ih readable'
      exact ⟨readable'', keeps.trans keeps'⟩

end Readable

/-- What the `head` handler serves is the head. -/
theorem head_of_served {s : Shared} {signed : SignedHead}
    (served : headHandler lib p s = .ok signed) : s.head = some signed.head := by
  cases current : s.head with
  | none => simp [headHandler, current] at served
  | some head =>
      cases made : SignedHead.new lib p.keypair head with
      | error e => simp [headHandler, current, made] at served
      | ok signedHead =>
          obtain rfl : signedHead = signed := by simpa [headHandler, current, made] using served
          cases sign : lib.sign p.keypair head.toBytes with
          | error e => simp [SignedHead.new, sign, bind, Except.bind] at made
          | ok sig =>
              simp only [SignedHead.new, sign, bind, Except.bind, pure, Except.pure,
                Except.ok.injEq] at made
              rw [← made]

/-- An object on the way from a head: an advertisement, or one of its chunks. -/
def Met (deps : Deps K) (blockstore : Cid → Option Ipld) (ads : List (Cid × Advertisement))
    (e : Cid × Ipld) : Prop :=
  ∃ ad ∈ ads, e = (ad.1, ad.2.toIpld) ∨
    ∃ chunks, EntryChain deps blockstore (ad.2.entries.bind Ipld.asLink) chunks ∧
      ∃ c ∈ chunks, e = (c.1, c.2.toIpld)

/-- What is met is stored, under its own CID. -/
theorem ReadsAs.stored {blockstore : Cid → Option Ipld} {head : Option Cid}
    {ads : List (Cid × Advertisement)} (reads : ReadsAs deps blockstore head ads) {e : Cid × Ipld}
    (met : Met deps blockstore ads e) : deps.objCid e.2 = some e.1 ∧ blockstore e.1 = some e.2 := by
  obtain ⟨ad, member, rfl | ⟨chunks, chain, c, listed, rfl⟩⟩ := met
  · exact ⟨reads.addressed ad member,
      reads.walk.get_eq (ad.1, ad.2.toIpld) (List.mem_map.mpr ⟨ad, member, rfl⟩)⟩
  · exact ⟨chain.addressed c listed,
      chain.walk.get_eq (c.1, c.2.toIpld) (List.mem_map.mpr ⟨c, listed, rfl⟩)⟩

variable (deps lib p) in
/-- **What was served stays readable.**  In every interleaving, and however many operations
fail: from a head that the handler has served, following `PreviousID` comes to an end, all
chunks of the advertisements met are there, and whatever `get_block` returns from then on for
one of these objects is that object. -/
theorem served_heads_stay_readable (collisionFree : CollisionFree deps.objCid)
    (blockstore : Cid → Option Ipld) (accesses : List Access) (s : Running)
    (run : exec (System.step (Operation.script deps lib p))
      (System.new (Shared.new blockstore).cells) accesses = some s)
    (before later : List (Operation × Result)) (signed : SignedHead)
    (served : s.log = before ++ (.head, .head (.ok signed)) :: later) :
    let then_ := serially deps p (Shared.new blockstore) (before.map Prod.fst)
    ∃ ads, ReadsAs deps then_.blockstore (some signed.head) ads ∧
      ∀ e, Met deps then_.blockstore ads e →
        (∀ text answer, (.getBlock text, answer) ∈ later → deps.cidFromStr text = .ok e.1 →
          answer = .block (.ok (deps.objBytes e.2))) ∧
        (s.Settled .blockstore → (s.cells .blockstore : Cid → Option Ipld) e.1 = some e.2) := by
  intro then_
  obtain ⟨serial, replay, settled, -⟩ :=
    serializable _ (script_disciplined deps lib p) _ accesses s run
  obtain ⟨rfl, results⟩ := serially_of_replay deps lib p replay
  have own := results before .head _ later served
  have current : then_.head = some signed.head := head_of_served (Result.head.inj own.symm)
  obtain ⟨⟨ads, reads⟩, pending⟩ :=
    ((Readable.start blockstore).serially (p := p) collisionFree (before.map Prod.fst)).1
  rw [current] at reads
  refine ⟨ads, reads, ?_⟩
  intro e met
  obtain ⟨addressed, stored⟩ := reads.stored met
  -- whatever runs after it, the object is still there
  have kept : ∀ operations,
      (serially deps p then_ operations).blockstore e.1 = some e.2 := fun operations =>
    ((Readable.mk ⟨ads, current ▸ reads⟩ pending).serially collisionFree operations).2
      e.2 e.1 addressed stored
  constructor
  · intro text answer member parses
    obtain ⟨between, after, rfl⟩ := List.mem_iff_append.mp member
    have result := results (before ++ (.head, .head (.ok signed)) :: between) (.getBlock text)
      answer after (by simp [served])
    rw [List.map_append, serially_append] at result
    rw [result, Operation.result, getBlock_of_stored (kept _) parses]
  · intro unlocked
    have now := congrFun (settled .blockstore unlocked) e.1
    rw [served, List.map_append, serially_append] at now
    exact now.trans (kept _)

end Reading

/-! ### Overlapping operations -/

/-- Signatures that keep the message. -/
def sampleHeadLib : HeadLib Unit Bytes :=
  { sign := fun _ message => .ok message
    publicKey := fun _ => []
    toProtobufEncoding := id
    fromProtobufEncoding := some
    verify := fun _ message sig => message == sig
    cidToString := fun _ => ""
    cidTryFrom := fun _ => .error "" }

/-- An advertisement is published while another one is created; the head is served, and then
lost to a `publish` of an unknown id. -/
def overlappingAccesses : List Access :=
  [.spawn (.create sampleAd 7), .advance 0, .advance 0, .advance 0,
    .spawn (.publish 7 .none), .advance 1, .advance 1,
    .spawn (.create sampleAd 8), .advance 2, .advance 2, .advance 2,
    .advance 1, .advance 1, .advance 1, .advance 1, .advance 1, .advance 1,
    .spawn .head, .advance 3, .advance 3,
    .spawn (.publish 9 .none), .advance 4, .advance 4, .advance 4, .advance 4]

/-- The entry of an operation that served a head. -/
def servedHead : Operation × Result → Option SignedHead
  | (.head, .head (.ok signed)) => some signed
  | _ => none

theorem servedHead_some {e : Operation × Result} {signed : SignedHead}
    (served : servedHead e = some signed) : e = (.head, .head (.ok signed)) := by
  unfold servedHead at served
  split at served
  · rw [Option.some.inj served]
  · cases served

theorem overlapping_run : ∃ s signed, exec (System.step (Operation.script plainDeps sampleHeadLib
      sampleProvider)) (System.new (Shared.new fun _ => none).cells) overlappingAccesses = some s ∧
    s.log = s.log.take 3 ++ (.head, .head (.ok signed)) :: s.log.drop 4 ∧
    s.log.length = 5 ∧ ∀ t ∈ s.tasks, t.rest = none := by
  have evaluated : (exec (System.step (Operation.script plainDeps sampleHeadLib sampleProvider))
      (System.new (Shared.new fun _ => none).cells) overlappingAccesses).map (fun s =>
        ((s.log[3]?.bind servedHead).isSome, s.log.length, s.tasks.all fun t => t.rest.isNone)) =
      some (true, 5, true) := by decide +kernel
  obtain ⟨s, run, facts⟩ := Option.map_eq_some_iff.mp evaluated
  simp only [Prod.mk.injEq] at facts
  obtain ⟨served, count, returned⟩ := facts
  obtain ⟨signed, found⟩ := Option.isSome_iff_exists.mp served
  obtain ⟨e, here, isHead⟩ := Option.bind_eq_some_iff.mp found
  obtain rfl := servedHead_some isHead
  refine ⟨s, signed, run, ?_, count, ?_⟩
  · obtain ⟨bound, own⟩ := List.getElem?_eq_some_iff.mp here
    rw [← own, List.getElem_cons_drop, List.take_append_drop]
  · intro t member
    simpa using List.all_eq_true.mp returned t member

theorem provider_operations_are_atomic_overlapping :
    ∃ s : Running, s.log.length = 5 ∧
      s.cells = (serially plainDeps sampleProvider (Shared.new fun _ => none)
        (s.log.map Prod.fst)).cells := by
  obtain ⟨s, signed, run, -, count, returned⟩ := overlapping_run
  obtain ⟨-, -, quiet⟩ := provider_operations_are_atomic plainDeps sampleHeadLib sampleProvider _
    overlappingAccesses s run
  exact ⟨s, count, quiet returned⟩

theorem served_heads_stay_readable_overlapping :
    ∃ (s : Running) (signed : SignedHead) (ads : List (Cid × Advertisement)),
      ReadsAs plainDeps (serially plainDeps sampleProvider (Shared.new fun _ => none)
        ((s.log.take 3).map Prod.fst)).blockstore (some signed.head) ads := by
  obtain ⟨s, signed, run, split, -⟩ := overlapping_run
  obtain ⟨ads, reads, -⟩ := served_heads_stay_readable plainDeps sampleHeadLib sampleProvider
    plainDeps_collisionFree _ overlappingAccesses s run _ _ signed split
  exact ⟨s, signed, ads, reads⟩


end Ursa.IndexProvider

/-
# Network.Publish — publishing the queued roots

The `StartPublish` arm of the service loop (`ursa-network/src/service.rs`).  For every
queued root it creates an advertisement, traverses the root's DAG in the block store,
adds the multihashes of the blocks in chunks of at most `maxEntries`, publishes the
advertisement and announces the new head.

`RootEnv` is what the environment answers for one root.  An error of the traversal (a block
is missing, or cannot be read) or of the encoder is passed on by `?` and ends the loop of the
service; a failing write or signature is unwrapped and ends it by a panic.  In both cases the
roots behind are not published.

An announcement goes out by gossip, or else by an HTTP request to the configured indexer.
That the request fails is only logged; but where the indexer's URL cannot be parsed there is
no request, and the loop ends by a panic, with this root published and the roots behind not
(`CanAnnounce`).
-/
import Ursa.Store.DagTraversal
import Ursa.IndexProvider.Chain

namespace Ursa.Network

set_option autoImplicit false

open Ursa.Theory (Outcome)
open Ursa.Theory.LinkedChain
open Ursa.IndexProvider

/-! ## Chunks of a list -/

section Chunks

variable {α : Type}

def chunksLoop (n : Nat) : Nat → List α → List (List α)
  | 0, _ => []
  | _ + 1, [] => []
  | fuel + 1, a :: rest => (a :: rest).take n :: chunksLoop n fuel ((a :: rest).drop n)

/-- `slice::chunks`. -/
def chunks (n : Nat) (l : List α) : List (List α) := chunksLoop n l.length l

theorem chunksLoop_spec {n : Nat} (pos : 0 < n) :
    ∀ (fuel : Nat) (l : List α), l.length ≤ fuel →
      (chunksLoop n fuel l).flatten = l ∧ ∀ c ∈ chunksLoop n fuel l, c ≠ [] ∧ c.length ≤ n
  | 0, l, enough => by
      obtain rfl := List.length_eq_zero_iff.mp (Nat.le_zero.mp enough)
      simp [chunksLoop]
  | fuel + 1, [], _ => by simp [chunksLoop]
  | fuel + 1, a :: rest, enough => by
      have shorter : ((a :: rest).drop n).length ≤ fuel := by
        simp only [List.length_drop, List.length_cons] at enough ⊢
        omega
      obtain ⟨joined, each⟩ := chunksLoop_spec pos fuel _ shorter
      refine ⟨?_, List.forall_mem_cons.mpr ⟨⟨?_, List.length_take_le n _⟩, each⟩⟩
      · rw [chunksLoop, List.flatten_cons, joined, List.take_append_drop]
      · obtain ⟨m, rfl⟩ := Nat.exists_eq_succ_of_ne_zero pos.ne'
        simp

theorem chunksLoop_map {β : Type} (f : α → β) (n : Nat) :
    ∀ (fuel : Nat) (l : List α),
      chunksLoop n fuel (l.map f) = (chunksLoop n fuel l).map (·.map f)
  | 0, _ => rfl
  | _ + 1, [] => rfl
  | fuel + 1, a :: rest => by
      have inner := chunksLoop_map f n fuel ((a :: rest).drop n)
      simp only [List.map_cons, List.map_drop] at inner
      simp [chunksLoop, ← inner, List.map_take]

theorem chunks_map {β : Type} (f : α → β) (n : Nat) (l : List α) :
    chunks n (l.map f) = (chunks n l).map (·.map f) := by
  rw [chunks, List.length_map]
  exact chunksLoop_map f n l.length l

theorem flatten_chunks {n : Nat} (pos : 0 < n) (l : List α) : (chunks n l).flatten = l :=
  (chunksLoop_spec pos l.length l le_rfl).1

theorem mem_chunks {n : Nat} (pos : 0 < n) {l c : List α} (member : c ∈ chunks n l) :
    c ≠ [] ∧ c.length ≤ n :=
  (chunksLoop_spec pos l.length l le_rfl).2 c member

end Chunks

/-! ## The loop over the queue -/

/-- What the environment answers while one root is published. -/
structure RootEnv where
  /-- The number drawn for the advertisement. -/
  id : Nat
  /-- The iteration order of the traversal's pending set. -/
  order : Nat → List Cid → Nat
  /-- How the write of each chunk fails, if it does. -/
  chunkFault : Nat → Option String
  publishFaults : WriteFaults
  /-- How the block store fails to answer the read of a CID, if it does. -/
  readFault : Cid → Option String
  /-- What gossipsub says to the announcement. -/
  gossip : Except String Unit
  /-- What the indexer says to an announcement by HTTP. -/
  put : Message → Except String Nat

inductive PublishError where
  | traversal (e : DagError)
  | encoding (reason : String)
  deriving DecidableEq, Repr

inductive Delivery where
  | gossip
  /-- By HTTP, with the status of the answer or the reason that there is none. -/
  | http (answer : Except String Nat)

/-- An announcement that was attempted: by gossip, or by HTTP when gossip failed. -/
structure Announcement where
  message : Message
  delivery : Delivery

/-- The components of the public address that are advertised. -/
def isAdvertised : Protocol → Bool
  | .ip6 _ => true
  | .ip4 _ => true
  | .tcp _ => true
  | _ => false

def advertisedAddress (publicAddress : Multiaddr) : Multiaddr := publicAddress.filter isAdvertised

section Loop

variable {K : Type} (deps : Deps K) (B : Blocks) (p : Provider K) (peerId : PeerId)

/-- Encode the chunks and add them to the pending advertisement, in order. -/
def addChunks (env : RootEnv) (id : Nat) :
    Nat → List (List Ipld) → Shared → Outcome PublishError Unit × Shared
  | _, [], s => (.ok (), s)
  | k, chunk :: rest, s =>
      match deps.toVec chunk with
      | .error reason => (.err (.encoding reason), s)
      | .ok entriesBytes =>
          let (added, s) := addChunk deps (env.chunkFault k) entriesBytes id s
          Outcome.andThen (added.expect " adding chunk to ad should not fail", s) fun _ s =>
            addChunks env id (k + 1) rest s

/-- Announce the head, if a message can be built. -/
def announce (env : RootEnv) (s : Shared) : Outcome PublishError (Option Announcement) :=
  match createAnnounceMsg deps p peerId s with
  | .ok message =>
      match env.gossip with
      | .ok _ => .ok (some { message, delivery := .gossip })
      | .error _ =>
          match announceHttpMessage deps p env.put message with
          | .ok answer => .ok (some { message, delivery := .http answer })
          | .err e => .err e
          | .panic m => .panic m
          | .diverge => .diverge
  | .err _ => .ok none
  | .panic m => .panic m
  | .diverge => .diverge

/-- The body of the loop, for the root taken from the queue. -/
def publishRoot (store : Store) (address : Multiaddr) (env : RootEnv) (rootCid : Cid) (s : Shared) :
    Outcome PublishError (Option Announcement) × Shared :=
  let ad := Advertisement.new rootCid.toBytes peerId [address.toString] false
  let (created, s) := create ad env.id s
  Outcome.andThen (created.expect "called `Result::unwrap()` on an `Err` value", s) fun id s =>
    match dagTraversalOn B env.readFault env.order store (convertCid rootCid.toBytes) with
    | .err e => (.err (.traversal e), s)
    | .panic m => (.panic m, s)
    | .diverge => (.diverge, s)
    | .ok dag =>
        let entries := dag.map fun d => Ipld.bytes (deps.multihash d.1)
        Outcome.andThen (addChunks deps env id 0 (chunks maxEntries entries) s) fun _ s =>
          let (done, s) := publish deps p env.publishFaults id s
          Outcome.andThen (done.expect "publishing the ad should not fail", s) fun _ s =>
            (announce deps p peerId env s, s)

/-- Take roots from the front of the queue until it is empty; `n` counts them. -/
def publishQueue (store : Store) (address : Multiaddr) (env : Nat → RootEnv) :
    Nat → List Cid → Shared → List Announcement →
      Outcome PublishError Unit × Shared × List Announcement
  | _, [], s, sent => (.ok (), s, sent)
  | n, rootCid :: rest, s, sent =>
      let s := { s with rootCids := rest }
      match publishRoot deps B p peerId store address (env n) rootCid s with
      | (.ok a, s) => publishQueue store address env (n + 1) rest s (sent ++ a.toList)
      | (.err e, s) => (.err e, s, sent)
      | (.panic m, s) => (.panic m, s, sent)
      | (.diverge, s) => (.diverge, s, sent)

end Loop

/-! ## A root that is published, call by call -/

section Calls

variable {K : Type} (deps : Deps K) (B : Blocks) (p : Provider K) (peerId : PeerId)

/-- The multihashes of a DAG's blocks, as they are advertised. -/
def dagEntries (deps : Deps K) (dag : List (Cid × Bytes)) : List Ipld :=
  dag.map fun d => .bytes (deps.multihash d.1)

/-- The address of an announcement: the configured domain and the peer. -/
def announceAddress (deps : Deps K) (p : Provider K) (peerId : PeerId) : Except String Multiaddr :=
  match deps.multiaddrFromStr p.config.domain with
  | .error reason => .error reason
  | .ok domain => deps.multiaddrFromStr (domain.toString ++ "/http/p2p/" ++ peerId.toBase58)

/-- An announcement does not panic: one that gossip refuses has a URL to go to. -/
def CanAnnounce (env : RootEnv) : Prop :=
  ∀ address reason, announceAddress deps p peerId = .ok address → env.gossip = .error reason →
    deps.parsesUrl (p.config.indexerUrl ++ "/ingest/announce") = true

/-- The traversal, every chunk write and the publish for one root succeed, and its
announcement does not panic. -/
def RootSucceeds (store : Store) (address : Multiaddr) (env : RootEnv) (root : Cid)
    (s s' : Shared) : Prop :=
  ∃ dag s₁, dagTraversalOn B env.readFault env.order store root = .ok dag ∧
    addChunks deps env env.id 0 (chunks maxEntries (dagEntries deps dag))
      (create (Advertisement.new root.toBytes peerId [address.toString] false) env.id s).2 =
        (.ok (), s₁) ∧
    publish deps p env.publishFaults env.id s₁ = (.ok (), s') ∧ CanAnnounce deps p peerId env

variable {deps p peerId}

theorem createAnnounceMsg_of_head {s : Shared} {cid : Cid} (head : s.head = some cid) :
    createAnnounceMsg deps p peerId s =
      match announceAddress deps p peerId with
      | .ok address => .ok { cid, addrs := [address] }
      | .error reason => .err reason := by
  unfold createAnnounceMsg announceAddress
  cases deps.multiaddrFromStr p.config.domain with
  | error reason => rfl
  | ok domain =>
      dsimp only
      cases deps.multiaddrFromStr (domain.toString ++ "/http/p2p/" ++ peerId.toBase58) with
      | error reason => rfl
      | ok address => simp [head]

/-- With a head, an announcement that goes through could be sent. -/
theorem canAnnounce_of_ok {env : RootEnv} {s : Shared} {cid : Cid} {a : Option Announcement}
    (head : s.head = some cid) (ok : announce deps p peerId env s = .ok a) :
    CanAnnounce deps p peerId env := by
  intro address reason built refused
  rw [announce, createAnnounceMsg_of_head head, built] at ok
  simp only [refused, announceHttpMessage] at ok
  cases parses : deps.parsesUrl (p.config.indexerUrl ++ "/ingest/announce") with
  | true => rfl
  | false => simp [parses] at ok

variable {B} in
theorem RootSucceeds.of_ok {store : Store} {address : Multiaddr} {env : RootEnv} {root : Cid}
    {s s' : Shared} {a : Option Announcement}
    (ok : publishRoot deps B p peerId store address env root s = (.ok a, s')) :
    RootSucceeds deps B p peerId store address env root s s' := by
  unfold publishRoot at ok
  simp only [create, Outcome.expect_ok, Outcome.andThen_ok, convertCid_toBytes] at ok
  split at ok
  · cases ok
  · cases ok
  · cases ok
  · rename_i dag traversed
    obtain ⟨⟨⟩, s₁, added, ok⟩ := Outcome.andThen_eq_ok ok
    obtain ⟨⟨⟩, s₂, published, ok⟩ := Outcome.andThen_eq_ok ok
    obtain ⟨done, rfl⟩ := Prod.mk.inj published
    obtain ⟨announced, rfl⟩ := Prod.mk.inj ok
    have publishing : publish deps p env.publishFaults env.id s₁ =
        (.ok (), (publish deps p env.publishFaults env.id s₁).2) :=
      Prod.ext (Outcome.expect_eq_ok done) rfl
    obtain ⟨ad, cid, publishes⟩ := publishes_of_ok (congrArg Prod.fst publishing)
    have head : (publish deps p env.publishFaults env.id s₁).2.head = some cid := by
      rw [publishes.result]
      rfl
    exact ⟨dag, s₁, traversed, added, publishing, canAnnounce_of_ok head announced⟩

end Calls

/-! ## A loop that goes on has lost nothing -/

section Keeps

variable {K : Type} {deps : Deps K} {B : Blocks} {p : Provider K} {peerId : PeerId}

/-- Adding chunks keeps the chains and touches no other pending advertisement. -/
theorem addChunks_keeps (collisionFree : CollisionFree deps.objCid) (env : RootEnv) (id : Nat)
    (cs : List (List Ipld)) (k : Nat) {s : Shared} (inv : ChainInv deps s) :
    ChainInv deps (addChunks deps env id k cs s).2 ∧
      (∀ id', id' ≠ id → (addChunks deps env id k cs s).2.tempAds id' = s.tempAds id') ∧
      (addChunks deps env id k cs s).2.rootCids = s.rootCids := by
  induction cs generalizing k s with
  | nil => exact ⟨inv, fun _ _ => rfl, rfl⟩
  | cons chunk rest ih =>
      simp only [addChunks]
      split
      · exact ⟨inv, fun _ _ => rfl, rfl⟩
      · rename_i bytes written
        have inv₁ := inv.addChunk collisionFree (env.chunkFault k) bytes id
        rcases addChunk_cases deps (env.chunkFault k) bytes id s with
          ⟨entries, ad, cid, -, -, -, -, result⟩ | ⟨failed, unchanged⟩
        · rw [result] at inv₁ ⊢
          obtain ⟨inv', others, queue⟩ := ih (k + 1) inv₁
          refine ⟨inv', fun id' ne => (others id' ne).trans ?_, queue⟩
          exact Function.update_of_ne ne ..
        · -- A failure is unwrapped here and ends the loop with the state it left.
          have ends : ∀ next : Unit → Shared → Outcome PublishError Unit × Shared,
              (Outcome.andThen ((addChunk deps (env.chunkFault k) bytes id s).1.expect
                " adding chunk to ad should not fail",
                (addChunk deps (env.chunkFault k) bytes id s).2) next).2 = s := by
            intro next
            rw [unchanged]
            cases outcome : (addChunk deps (env.chunkFault k) bytes id s).1 with
            | ok value => exact absurd outcome failed
            | _ => rfl
          rw [ends]
          exact ⟨inv, fun _ _ => rfl, rfl⟩

/-- A root that was published leaves the chains intact and nothing pending. -/
theorem publishRoot_keeps (collisionFree : CollisionFree deps.objCid) {store : Store}
    {address : Multiaddr} {env : RootEnv} {root : Cid} {s s' : Shared} {a : Option Announcement}
    (ok : publishRoot deps B p peerId store address env root s = (.ok a, s'))
    (inv : ChainInv deps s) (idle : ∀ id, s.tempAds id = none) :
    ChainInv deps s' ∧ (∀ id, s'.tempAds id = none) ∧ s'.rootCids = s.rootCids := by
  obtain ⟨dag, s₁, -, added, published, -⟩ := RootSucceeds.of_ok ok
  have kept := addChunks_keeps collisionFree env env.id (chunks maxEntries (dagEntries deps dag)) 0
    (inv.create (.new root.toBytes peerId [address.toString] false) env.id)
  rw [added] at kept
  obtain ⟨inv₁, others, queue⟩ := kept
  obtain ⟨ad, cid, publishes⟩ := publishes_of_ok (congrArg Prod.fst published)
  have result := published.symm.trans publishes.result
  obtain rfl : s' = afterPublish env.id s₁ ad cid := (Prod.mk.inj result).2
  refine ⟨inv₁.afterPublish collisionFree publishes, ?_, queue⟩
  intro id
  by_cases own : id = env.id
  · subst own
    exact Function.update_self ..
  · refine (Function.update_of_ne own ..).trans ((others id own).trans ?_)
    exact (Function.update_of_ne own ..).trans (idle id)

/-- So does a queue that was published to its end. -/
theorem publishQueue_keeps (collisionFree : CollisionFree deps.objCid) {store : Store}
    {address : Multiaddr} {env : Nat → RootEnv} {roots : List Cid} {n : Nat} {s s' : Shared}
    {sent sent' : List Announcement}
    (ok : publishQueue deps B p peerId store address env n roots s sent = (.ok (), s', sent'))
    (inv : ChainInv deps s) (idle : ∀ id, s.tempAds id = none) :
    ChainInv deps s' ∧ ∀ id, s'.tempAds id = none := by
  induction roots generalizing n s sent with
  | nil =>
      cases ok
      exact ⟨inv, idle⟩
  | cons root rest ih =>
      have inv₀ := inv.setQueue rest
      simp only [publishQueue] at ok
      split at ok
      · rename_i a s₁ published
        obtain ⟨inv₁, idle₁, -⟩ := publishRoot_keeps collisionFree published inv₀ idle
        exact ih ok inv₁ idle₁
      all_goals cases ok

/-! ## What a loop that goes on needed -/

/-- What publishing a root needs: the DAG is complete and can be read, the provider's
blockstore takes the writes that are made for it, and its announcement does not panic. -/
structure RootReady (deps : Deps K) (B : Blocks) (p : Provider K) (peerId : PeerId) (store : Store)
    (env : RootEnv) (root : Cid) : Prop where
  complete : Complete B store root
  readable : ∀ cid, Reach B store root cid → env.readFault cid = none
  chunk : ∀ dag, dagTraversal B env.order store root = .ok dag →
    ∀ k < (chunks maxEntries dag).length, env.chunkFault k = none
  publish : env.publishFaults = .none
  announce : CanAnnounce deps p peerId env

/-- **The first of the chunks**, where all are added: it was written, and the pending
advertisement links to it. -/
theorem addChunks_cons_ok {env : RootEnv} {id k : Nat} {chunk : List Ipld} {rest : List (List Ipld)}
    {s s' : Shared} (ok : addChunks deps env id k (chunk :: rest) s = (.ok (), s')) :
    ∃ ad cid blockstore, s.tempAds id = some ad ∧ env.chunkFault k = none ∧
      addChunks deps env id (k + 1) rest { s with
        blockstore
        tempAds := Function.update s.tempAds id (some { ad with entries := some (.link cid) }) } =
          (.ok (), s') := by
  simp only [addChunks] at ok
  split at ok
  · cases ok
  · rename_i bytes written
    obtain ⟨⟨⟩, s₁, added, ok⟩ := Outcome.andThen_eq_ok ok
    obtain ⟨succeeded, rfl⟩ := Prod.mk.inj added
    rcases addChunk_cases deps (env.chunkFault k) bytes id s with
      ⟨entries, ad, cid, -, pending, noFault, -, result⟩ | ⟨failed, -⟩
    · rw [result] at ok
      exact ⟨ad, cid, _, pending, noFault, ok⟩
    · exact absurd (Outcome.expect_eq_ok succeeded) failed

theorem addChunks_written {env : RootEnv} {id : Nat} {cs : List (List Ipld)} {k : Nat}
    {s s' : Shared} (ok : addChunks deps env id k cs s = (.ok (), s')) :
    ∀ j < cs.length, env.chunkFault (k + j) = none := by
  induction cs generalizing k s with
  | nil => simp
  | cons chunk rest ih =>
      obtain ⟨ad, cid, blockstore, -, noFault, ok⟩ := addChunks_cons_ok ok
      intro j bound
      cases j with
      | zero => exact noFault
      | succ j =>
          have later := ih ok j (by simpa using bound)
          rwa [show k + 1 + j = k + (j + 1) by omega] at later

theorem publishRoot_ready {store : Store} {address : Multiaddr} {env : RootEnv} {root : Cid}
    {s s' : Shared} {a : Option Announcement}
    (ok : publishRoot deps B p peerId store address env root s = (.ok a, s')) :
    RootReady deps B p peerId store env root := by
  obtain ⟨dag, s₁, read, added, published, announced⟩ := RootSucceeds.of_ok ok
  obtain ⟨traversed, readable⟩ := dagTraversalOn_ok_iff.mp read
  obtain ⟨ad, cid, publishes⟩ := publishes_of_ok (congrArg Prod.fst published)
  refine ⟨(dagTraversal_dagOf traversed).1, readable, ?_, ?_, announced⟩
  · intro dag' traversed' k bound
    obtain rfl : dag = dag' := Outcome.ok.inj (traversed.symm.trans traversed')
    have count : k < (chunks maxEntries (dagEntries deps dag)).length := by
      rw [dagEntries, chunks_map, List.length_map]
      exact bound
    have written := addChunks_written added k count
    rwa [Nat.zero_add] at written
  · have converted := publishes.converted
    have written := publishes.written
    cases faults : env.publishFaults
    simp_all [WriteFaults.none]

/-- A queue is published to its end only if every root in it was ready. -/
theorem publishQueue_ready {store : Store} {address : Multiaddr} {env : Nat → RootEnv}
    {roots : List Cid} {n : Nat} {s s' : Shared} {sent sent' : List Announcement}
    (ok : publishQueue deps B p peerId store address env n roots s sent = (.ok (), s', sent')) :
    ∀ i root, roots[i]? = some root →
      RootReady deps B p peerId store (env (n + i)) root := by
  induction roots generalizing n s sent with
  | nil => simp
  | cons first rest ih =>
      simp only [publishQueue] at ok
      split at ok
      · rename_i a s₁ published
        intro i root found
        cases i with
        | zero =>
            obtain rfl : first = root := by simpa using found
            exact publishRoot_ready published
        | succ i =>
            have later := ih ok i root (by simpa using found)
            rwa [show n + 1 + i = n + (i + 1) by omega] at later
      all_goals cases ok

theorem addChunks_ends (env : RootEnv) (id : Nat) (cs : List (List Ipld)) (k : Nat) (s : Shared) :
    (addChunks deps env id k cs s).1 ≠ .diverge := by
  induction cs generalizing k s with
  | nil => simp [addChunks]
  | cons chunk rest ih =>
      simp only [addChunks]
      split
      · simp
      · apply Outcome.andThen_ends
        · exact Outcome.expect_ends (addChunk_ends _ _ _ _)
        · intro _ s'
          exact ih (k + 1) s'

theorem announce_ends (env : RootEnv) (s : Shared) : announce deps p peerId env s ≠ .diverge := by
  unfold announce
  split
  · split
    · simp
    · split
      · simp
      · simp
      · simp
      · rename_i diverges
        exact absurd diverges (announceHttpMessage_ends _ _ _)
  · simp
  · simp
  · rename_i diverges
    exact absurd diverges (createAnnounceMsg_ends p peerId s)

theorem publishRoot_ends (store : Store) (address : Multiaddr) (env : RootEnv) (root : Cid)
    (s : Shared) : (publishRoot deps B p peerId store address env root s).1 ≠ .diverge := by
  unfold publishRoot
  simp only [create, Outcome.expect_ok, Outcome.andThen_ok, convertCid_toBytes]
  split
  · simp
  · simp
  · rename_i diverges
    exact absurd diverges dagTraversalOn_ne_diverge
  · apply Outcome.andThen_ends (addChunks_ends _ _ _ _ _)
    intro _ s₁
    apply Outcome.andThen_ends (Outcome.expect_ends (publish_ends _ _ _ _))
    intro _ s₂
    exact announce_ends env s₂

/-- The loop over the queue ends. -/
theorem publishQueue_ends (store : Store) (address : Multiaddr) (env : Nat → RootEnv)
    (roots : List Cid) (n : Nat) (s : Shared) (sent : List Announcement) :
    (publishQueue deps B p peerId store address env n roots s sent).1 ≠ .diverge := by
  induction roots generalizing n s sent with
  | nil => simp [publishQueue]
  | cons root rest ih =>
      simp only [publishQueue]
      split
      · exact ih _ _ _
      · simp
      · simp
      · rename_i diverges
        exact absurd (congrArg Prod.fst diverges) (publishRoot_ends _ _ _ _ _)

end Keeps

/-! ## What the libraries are relied on for -/

/-- The behaviour of the third-party code that publishing depends on, for the
provider's key: content addressing, DAG-CBOR and signing. -/
structure Lawful {K : Type} (deps : Deps K) (keypair : K) : Prop where
  /-- No two objects are stored under one CID. -/
  collisionFree : CollisionFree deps.objCid
  /-- `from_slice` inverts `to_vec` on lists of byte strings. -/
  readsBack : ∀ hashes : List Bytes, hashes.length < 2 ^ 64 → (∀ h ∈ hashes, h.length < 2 ^ 64) →
    ∃ b, deps.toVec (hashes.map .bytes) = .ok b ∧ deps.fromSlice b = .ok (hashes.map .bytes)
  /-- A multihash is a byte vector. -/
  shortHashes : ∀ cid, (deps.multihash cid).length < 2 ^ 64
  /-- Byte strings and links can be serialised. -/
  chunkAddressed : ∀ (hashes : List Bytes) (next : Option Cid),
    ∃ cid, deps.objCid (EntryChunk.new (hashes.map .bytes) (next.map .link)).toIpld = some cid
  /-- So can text, byte strings, links and a flag. -/
  adAddressed : ∀ (previous entries : Option Cid) (provider : String) (addresses : List String)
    (signature contextID metadata : Bytes) (isRm : Bool),
    ∃ cid, deps.objCid (Advertisement.toIpld
      { previousID := previous.map .link, provider, addresses, signature := .bytes signature
        entries := entries.map .link, contextID := .bytes contextID
        metadata := .bytes metadata, isRm }) = some cid
  /-- The node's key signs everything. -/
  signs : ∀ payload, ∃ envelope,
    deps.signedEnvelope keypair adSignatureDomain adSignatureCodec payload = .ok envelope

/-- The blockstore takes every write. -/
structure RootEnv.WritesSucceed (env : RootEnv) : Prop where
  chunk : ∀ k, env.chunkFault k = none
  publish : env.publishFaults = .none

/-- The block store answers every read. -/
def RootEnv.ReadsSucceed (env : RootEnv) : Prop := ∀ cid, env.readFault cid = none

theorem RootEnv.WritesSucceed.ready {K : Type} {deps : Deps K} {p : Provider K} {peerId : PeerId}
    {env : RootEnv} (writes : env.WritesSucceed) (reads : env.ReadsSucceed)
    (announces : CanAnnounce deps p peerId env) {B : Blocks} {store : Store} {root : Cid}
    (complete : Complete B store root) : RootReady deps B p peerId store env root where
  complete := complete
  readable cid _ := reads cid
  chunk _ _ k _ := writes.chunk k
  publish := writes.publish
  announce := announces

theorem plainDeps_lawful : Lawful plainDeps () where
  collisionFree := plainDeps_collisionFree
  readsBack := plainDeps_fromSlice_toVec
  shortHashes cid := by
    have : (plainDeps.multihash cid).length ≤ 66 := List.length_take_le _ _
    omega
  chunkAddressed _ _ := ⟨_, rfl⟩
  adAddressed _ _ _ _ _ _ _ _ := ⟨_, rfl⟩
  signs _ := ⟨_, rfl⟩

section Spec

variable {K : Type} {deps : Deps K} {B : Blocks} {p : Provider K} {peerId : PeerId}

/-! ## Adding the chunks -/

/-- What a successful `addChunk` leaves behind. -/
def afterChunk (id : Nat) (s : Shared) (ad : Advertisement) (chunk : EntryChunk) (cid : Cid) :
    Shared :=
  { s with
    blockstore := Function.update s.blockstore cid (some chunk.toIpld)
    tempAds := Function.update s.tempAds id (some { ad with entries := some (.link cid) }) }

/-- Adding chunks to a pending advertisement puts them on its chunk chain in order,
and changes nothing else. -/
theorem addChunks_ok (lawful : Lawful deps p.keypair) {env : RootEnv} {id : Nat}
    (hashes : List (List Bytes))
    (fits : ∀ hs ∈ hashes, hs.length < 2 ^ 64 ∧ ∀ h ∈ hs, h.length < 2 ^ 64)
    (k : Nat) (writes : ∀ j < hashes.length, env.chunkFault (k + j) = none) (s : Shared) (ad : Advertisement) (link : Option Cid)
    (pending : s.tempAds id = some ad) (own : ad.entries = link.map .link)
    (before : List (Cid × EntryChunk)) (chain : EntryChain deps s.blockstore link before) :
    ∃ blockstore link' added,
      addChunks deps env id k (hashes.map (·.map .bytes)) s = (.ok (), { s with
        blockstore
        tempAds := Function.update s.tempAds id
          (some { ad with entries := link'.map Ipld.link }) }) ∧
      EntryChain deps blockstore link' (added ++ before) ∧
      added.reverse.map (fun e => e.2.entries) = hashes.map (·.map .bytes) ∧
      Keeps deps.objCid s.blockstore blockstore := by
  induction hashes generalizing k s ad link before with
  | nil =>
      refine ⟨s.blockstore, link, [], ?_, chain, rfl, .refl⟩
      have same : { ad with entries := link.map Ipld.link } = ad := by rw [← own]
      rw [same, Function.update_eq_self_iff.mpr pending.symm]
      rfl
  | cons hs rest ih =>
      obtain ⟨bytes, written, read⟩ :=
        lawful.readsBack hs (fits hs (by simp)).1 (fits hs (by simp)).2
      obtain ⟨cid, addressed⟩ := lawful.chunkAddressed hs link
      have step : addChunk deps (env.chunkFault k) bytes id s = (.ok (),
          afterChunk id s ad (EntryChunk.new (hs.map .bytes) (link.map .link)) cid) := by
        have writable : env.chunkFault k = none := writes 0 (by simp)
        simp [addChunk, read, pending, own, putObj, addressed, writable, afterChunk]
      have longer := chain.cons lawful.collisionFree addressed (Ipld.asLink_map_link link)
      obtain ⟨blockstore, link', added, runs, chain', listed, keeps⟩ :=
        ih (fun hs member => fits hs (by simp [member])) (k + 1)
          (fun j bound => by
            rw [show k + 1 + j = k + (j + 1) by omega]
            exact writes (j + 1) (by simpa using bound))
          (afterChunk id s ad _ cid)
          { ad with entries := some (.link cid) } (some cid) (Function.update_self ..) rfl _ longer
      refine ⟨blockstore, link', added ++ [(cid, _)], ?_, by simpa using chain', ?_,
        (Keeps.put lawful.collisionFree addressed).trans keeps⟩
      · simp only [List.map_cons, addChunks, written, step, Outcome.expect_ok, Outcome.andThen_ok]
        rw [runs]
        simp [afterChunk]
      · simp [listed, EntryChunk.new]

/-! ## Publishing one root -/

/-- The chunks of a DAG's multihashes go onto the chain of a pending advertisement. -/
theorem addDag_ok (lawful : Lawful deps p.keypair) {env : RootEnv} {dag : List (Cid × Bytes)}
    (writes : ∀ k < (chunks maxEntries dag).length, env.chunkFault k = none) {id : Nat}
    {s : Shared} {ad : Advertisement} (pending : s.tempAds id = some ad) (empty : ad.entries = none) :
    ∃ blockstore link added,
      addChunks deps env id 0 (chunks maxEntries (dagEntries deps dag)) s = (.ok (), { s with
        blockstore
        tempAds := Function.update s.tempAds id
          (some { ad with entries := link.map Ipld.link }) }) ∧
      EntryChain deps blockstore link added ∧
      (added.reverse.map fun c => c.2.entries).flatten = dagEntries deps dag ∧
      (∀ c ∈ added, c.2.entries ≠ [] ∧ c.2.entries.length ≤ maxEntries) ∧
      Keeps deps.objCid s.blockstore blockstore := by
  have pos : 0 < maxEntries := by decide
  let hashes := dag.map fun d => deps.multihash d.1
  have fits : ∀ hs ∈ chunks maxEntries hashes, hs.length < 2 ^ 64 ∧ ∀ h ∈ hs, h.length < 2 ^ 64 := by
    intro hs member
    refine ⟨lt_of_le_of_lt (mem_chunks pos member).2 (by decide), ?_⟩
    intro h inChunk
    have listed : h ∈ hashes := by
      rw [← flatten_chunks pos hashes]
      exact List.mem_flatten_of_mem member inChunk
    obtain ⟨d, -, rfl⟩ := List.mem_map.mp listed
    exact lawful.shortHashes d.1
  have encoded : (chunks maxEntries hashes).map (·.map Ipld.bytes) =
      chunks maxEntries (dagEntries deps dag) := by
    rw [← chunks_map, List.map_map]
    rfl
  obtain ⟨blockstore, link, added, adds, chain, listed, keeps⟩ :=
    addChunks_ok (p := p) lawful (chunks maxEntries hashes) fits 0
      (fun k bound => by
        rw [Nat.zero_add]
        exact writes k (by rwa [chunks_map, List.length_map] at bound))
      s ad none pending empty [] .nil
  rw [encoded] at adds listed
  rw [List.append_nil] at chain
  refine ⟨blockstore, link, added, adds, chain, ?_, ?_, keeps⟩
  · rw [listed, flatten_chunks pos]
  · intro c member
    apply mem_chunks pos (l := dagEntries deps dag)
    rw [← listed]
    exact List.mem_map.mpr ⟨c, List.mem_reverse.mpr member, rfl⟩

/-- The stored advertisement `e` advertises the DAG under `root`: reading its chunk
chain from the oldest chunk to the newest gives the multihashes of the blocks that
the traversal returns. -/
structure Advertises (deps : Deps K) (B : Blocks) (store : Store) (order : Nat → List Cid → Nat)
    (root : Cid) (blockstore : Cid → Option Ipld) (e : Cid × Advertisement) : Prop where
  stored : blockstore e.1 = some e.2.toIpld
  context : e.2.contextID = .bytes root.toBytes
  entries : ∃ dag chunks, dagTraversal B order store root = .ok dag ∧ DagOf B store root dag ∧
    EntryChain deps blockstore (e.2.entries.bind Ipld.asLink) chunks ∧
    (chunks.reverse.map fun c => c.2.entries).flatten = dagEntries deps dag ∧
    ∀ c ∈ chunks, c.2.entries ≠ [] ∧ c.2.entries.length ≤ maxEntries

theorem Advertises.keep {store : Store} {order : Nat → List Cid → Nat} {root : Cid}
    {blockstore blockstore' : Cid → Option Ipld} {e : Cid × Advertisement}
    (advertises : Advertises deps B store order root blockstore e)
    (addressed : deps.objCid e.2.toIpld = some e.1)
    (keeps : Keeps deps.objCid blockstore blockstore') :
    Advertises deps B store order root blockstore' e where
  stored := keeps _ _ addressed advertises.stored
  context := advertises.context
  entries := by
    obtain ⟨dag, chunks, traversed, dagOf, chain, listed, sizes⟩ := advertises.entries
    exact ⟨dag, chunks, traversed, dagOf, chain.keep keeps, listed, sizes⟩

/-- The message that announces `cid`, when there is an address to announce. -/
def announcementOf (deps : Deps K) (p : Provider K) (peerId : PeerId) (cid : Cid) :
    Option Message :=
  match announceAddress deps p peerId with
  | .ok address => some { cid, addrs := [address] }
  | .error _ => none

/-- With a head, an announcement that can be sent names it. -/
theorem announce_of_head {env : RootEnv} {s : Shared} {cid : Cid} (head : s.head = some cid)
    (can : CanAnnounce deps p peerId env) :
    ∃ a, announce deps p peerId env s = .ok a ∧
      a.map Announcement.message = announcementOf deps p peerId cid := by
  rw [announce, createAnnounceMsg_of_head head, announcementOf]
  cases built : announceAddress deps p peerId with
  | error reason => exact ⟨none, rfl, rfl⟩
  | ok address =>
      cases gossiped : env.gossip with
      | ok value => exact ⟨_, rfl, rfl⟩
      | error reason =>
          let message : Message := { cid, addrs := [address] }
          refine ⟨some { message, delivery := .http (env.put message) }, ?_, rfl⟩
          simp [announceHttpMessage, can address reason built gossiped, message]

/-- Signing succeeds on an advertisement with links and byte strings in its fields. -/
theorem seal_ok (lawful : Lawful deps p.keypair) (head : Option Cid) {ad : Advertisement}
    {link : Option Cid} {metadata : Bytes} (entries : ad.entries = link.map .link)
    (isBytes : ad.metadata = .bytes metadata) :
    ∃ sig, ad.seal deps p.keypair head =
      .ok { ad with previousID := head.map .link, signature := .bytes sig } := by
  obtain ⟨payload, computed⟩ : ∃ payload, Advertisement.sigPayload deps
      { ad with previousID := head.map Ipld.link } = .ok payload :=
    Advertisement.sigPayload_ok _ rfl entries isBytes
  obtain ⟨envelope, signed⟩ := lawful.signs payload
  refine ⟨envelope, ?_⟩
  simp [Advertisement.seal, Advertisement.sign, computed, signed, bind, Except.bind, pure,
    Except.pure]

/-- The body of the loop, when none of its calls fails. -/
theorem publishRoot_eq {store : Store} {address : Multiaddr} {env : RootEnv} {root : Cid}
    {s s₁ s₂ : Shared} {dag : List (Cid × Bytes)} {a : Option Announcement}
    (traversed : dagTraversalOn B env.readFault env.order store root = .ok dag)
    (added : addChunks deps env env.id 0 (chunks maxEntries (dagEntries deps dag))
      (create (Advertisement.new root.toBytes peerId [address.toString] false) env.id s).2 =
        (.ok (), s₁))
    (published : publish deps p env.publishFaults env.id s₁ = (.ok (), s₂))
    (announced : announce deps p peerId env s₂ = .ok a) :
    publishRoot deps B p peerId store address env root s = (.ok a, s₂) := by
  unfold publishRoot
  simp only [create, Outcome.expect_ok, Outcome.andThen_ok, convertCid_toBytes, traversed]
  unfold create dagEntries at added
  rw [added]
  simp only [Outcome.andThen_ok, published, Outcome.expect_ok, announced]

variable (B peerId) in
/-- Publishing a root whose DAG is complete succeeds: one advertisement, which
advertises the DAG, becomes the head, and the announcement names it. -/
theorem publishRoot_ok (lawful : Lawful deps p.keypair) {store : Store} (address : Multiaddr)
    {env : RootEnv} {root : Cid} (ready : RootReady deps B p peerId store env root) {s : Shared}
    (inv : ChainInv deps s) (fresh : s.tempAds env.id = none) :
    ∃ a e s', publishRoot deps B p peerId store address env root s = (.ok a, s') ∧
      a.map Announcement.message = announcementOf deps p peerId e.1 ∧
      s'.published = e :: s.published ∧ s'.tempAds = s.tempAds ∧ s'.rootCids = s.rootCids ∧
      ChainInv deps s' ∧ Keeps deps.objCid s.blockstore s'.blockstore ∧
      Advertises deps B store env.order root s'.blockstore e := by
  obtain ⟨dag, traversed⟩ := (dagTraversal_ok_iff env.order).mpr ready.complete
  let ad := Advertisement.new root.toBytes peerId [address.toString] false
  obtain ⟨blockstore, link, added, adds, chain, listed, sizes, keeps⟩ :=
    addDag_ok (p := p) lawful (ready.chunk dag traversed) (s := (create ad env.id s).2)
      (Function.update_self ..) rfl
  let filled : Advertisement := { ad with entries := link.map Ipld.link }
  let s₁ : Shared := { s with
    blockstore, tempAds := Function.update s.tempAds env.id (some filled) }
  have adds' : addChunks deps env env.id 0 (chunks maxEntries (dagEntries deps dag))
      (create ad env.id s).2 = (.ok (), s₁) := by
    rw [adds]
    simp [create, s₁, filled]
  -- It is signed and stored.
  obtain ⟨sig, sealed⟩ := seal_ok lawful s.head
    (rfl : filled.entries = link.map .link) (rfl : filled.metadata = .bytes _)
  obtain ⟨cid, addressed⟩ := lawful.adAddressed s.head link ad.provider ad.addresses sig
    root.toBytes { protocolID := 0x0900, data := [] : Metadata }.serialize false
  have publishes : Publishes deps p env.publishFaults env.id s₁
      { filled with previousID := s.head.map Ipld.link, signature := .bytes sig } cid :=
    ⟨⟨filled, Function.update_self .., sealed⟩, by rw [ready.publish]; rfl,
      by rw [ready.publish]; rfl, addressed⟩
  have start : ChainInv deps s₁ := by
    apply (inv.keep keeps).setPending
    intro _ same
    cases same
    exact ⟨added, (Ipld.asLink_map_link link).symm ▸ chain⟩
  have inv' := start.afterPublish lawful.collisionFree publishes
  have grown : Keeps deps.objCid blockstore (afterPublish env.id s₁ _ cid).blockstore :=
    .put lawful.collisionFree addressed
  obtain ⟨a, announced, message⟩ : ∃ a, announce deps p peerId env
      (afterPublish env.id s₁ _ cid) = .ok a ∧
      a.map Announcement.message = announcementOf deps p peerId cid :=
    announce_of_head rfl ready.announce
  refine ⟨a, (cid, _), afterPublish env.id s₁ _ cid, ?_, message, rfl, ?_, rfl, inv',
    keeps.trans grown, ?_⟩
  · exact publishRoot_eq (dagTraversalOn_ok_iff.mpr ⟨traversed, ready.readable⟩) adds'
      publishes.result announced
  · simp [afterPublish, s₁, fresh]
  · refine ⟨Function.update_self .., rfl, dag, added, traversed, (dagTraversal_dagOf traversed).2,
      ?_, listed, sizes⟩
    exact (Ipld.asLink_map_link link).symm ▸ chain.keep grown

/-! ## Publishing the queue -/

/-- What publishing `roots` from `s` leaves behind: an advertisement for each root, in
order, on top of what was published before, and nothing pending. -/
structure PublishesAll (deps : Deps K) (B : Blocks) (p : Provider K) (peerId : PeerId)
    (store : Store) (order : Nat → Nat → List Cid → Nat) (roots : List Cid)
    (s s' : Shared) (ads : List (Cid × Advertisement)) (sent : List Announcement) : Prop where
  published : s'.published = ads.reverse ++ s.published
  count : ads.length = roots.length
  advertises : ∀ i root, roots[i]? = some root →
    ∃ e, ads[i]? = some e ∧ Advertises deps B store (order i) root s'.blockstore e
  announced : sent.map Announcement.message = ads.filterMap fun e => announcementOf deps p peerId e.1
  tempAds : s'.tempAds = s.tempAds
  rootCids : s'.rootCids = []
  keeps : Keeps deps.objCid s.blockstore s'.blockstore

/-- Every root has its advertisement. -/
theorem PublishesAll.context {store : Store} {order : Nat → Nat → List Cid → Nat}
    {roots : List Cid} {s s' : Shared} {ads : List (Cid × Advertisement)}
    {sent : List Announcement} (all : PublishesAll deps B p peerId store order roots s s' ads sent) :
    ∀ root ∈ roots, ∃ e ∈ s'.published, e.2.contextID = .bytes root.toBytes := by
  intro root member
  obtain ⟨i, found⟩ := List.mem_iff_getElem?.mp member
  obtain ⟨e, listed, advertises⟩ := all.advertises i root found
  refine ⟨e, ?_, advertises.context⟩
  rw [all.published]
  simp [List.mem_of_getElem? listed]

variable (peerId) in
/-- **Publishing the queue.**  When every queued DAG is complete, all of them are
advertised, in queue order, and the loop over the queue ends. -/
theorem publishQueue_ok (lawful : Lawful deps p.keypair) {store : Store} (address : Multiaddr)
    {env : Nat → RootEnv} (roots : List Cid) (n : Nat)
    (ready : ∀ i root, roots[i]? = some root →
      RootReady deps B p peerId store (env (n + i)) root) {s : Shared}
    (queue : s.rootCids = roots) (inv : ChainInv deps s) (idle : ∀ id, s.tempAds id = none)
    (sent : List Announcement) :
    ∃ s' ads sent', publishQueue deps B p peerId store address env n roots s sent =
        (.ok (), s', sent ++ sent') ∧
      ChainInv deps s' ∧
      PublishesAll deps B p peerId store (fun i => (env (n + i)).order) roots s s' ads sent' := by
  induction roots generalizing n s sent with
  | nil =>
      refine ⟨s, [], [], by simp [publishQueue], inv, ?_⟩
      exact ⟨rfl, rfl, by simp, rfl, rfl, queue, .refl⟩
  | cons root rest ih =>
      have inv₀ := inv.setQueue rest
      have here : RootReady deps B p peerId store (env n) root := ready 0 root rfl
      obtain ⟨a, e, s₁, runs, message, published, tempAds, rootCids, inv₁, keeps, advertises⟩ :=
        publishRoot_ok B peerId lawful address here inv₀ (idle _)
      have later : ∀ i r, rest[i]? = some r →
          RootReady deps B p peerId store (env (n + 1 + i)) r := by
        intro i r found
        rw [show n + 1 + i = n + (i + 1) by omega]
        exact ready (i + 1) r (by simpa using found)
      obtain ⟨s', ads, sent', runs', inv', all⟩ :=
        ih (n + 1) later rootCids inv₁ (fun id => by rw [tempAds]; exact idle id)
          (sent ++ a.toList)
      refine ⟨s', e :: ads, a.toList ++ sent', ?_, inv', ?_⟩
      · simp only [publishQueue, runs, runs', List.append_assoc]
      · refine ⟨?_, by simp [all.count], ?_, ?_, all.tempAds.trans tempAds, all.rootCids,
          keeps.trans all.keeps⟩
        · rw [all.published, published]
          simp
        · intro i r found
          cases i with
          | zero =>
              obtain rfl : root = r := by simpa using found
              have own : deps.objCid e.2.toIpld = some e.1 :=
                inv₁.addressed e (by simp [published])
              exact ⟨e, rfl, advertises.keep own all.keeps⟩
          | succ i =>
              obtain ⟨e', at', advertises'⟩ := all.advertises i r (by simpa using found)
              refine ⟨e', by simpa using at', ?_⟩
              rw [show n + (i + 1) = n + 1 + i by omega]
              exact advertises'
        · rw [List.map_append, all.announced, List.filterMap_cons]
          cases a <;> simp at message <;> simp [← message]

end Spec

end Ursa.Network

/-
# Rpc.Indexer — what an indexer reads from the node

An indexer is told of a head, asks `/head` for it, and then asks for one object after the
other under `/:cid`: the advertisements along `PreviousID`, and for each of them the chunks
along `Next`.  `ingest` is such a reader.  It trusts nothing: it opens the signed head, takes
an object only under its own CID, and an advertisement only with a signature of the key that
signed the head.

Its requests take time.  Every one of them may be answered at another moment of the node's
life, after further publishes and restarts.  `indexers_read_what_was_indexed` says what comes
out if the head was served while the loop ran: the roots that were enqueued, in order, each
with the multihashes of the blocks of its DAG.
-/
import Ursa.IndexProvider.Drafts
import Ursa.IndexProvider.Signature
import Ursa.Rpc.Restart

namespace Ursa.Rpc

set_option autoImplicit false

open Ursa.Theory.Run
open Ursa.Theory.LinkedChain
open Ursa.Network
open Ursa.IndexProvider

/-! ## The reader -/

/-- What a reader uses besides the libraries of the provider. -/
structure WireLib (P : Type) where
  /-- DAG-CBOR, read as a value. -/
  readObject : Bytes → Option Ipld
  /-- `SignedEnvelope::payload_and_signing_key` -/
  openEnvelope : Bytes → String → String → Except String (Bytes × P)

/-- What is written can be read, and what is signed can be opened. -/
structure WireLib.Lawful {K P : Type} (wire : WireLib P) (deps : Deps K) (lib : HeadLib K P) :
    Prop where
  head : lib.Lawful
  text : ∀ cid, deps.cidFromStr (lib.cidToString cid) = .ok cid
  reads : ∀ o cid, deps.objCid o = some cid → wire.readObject (deps.objBytes o) = some o
  opens : ∀ key domain codec payload envelope,
    deps.signedEnvelope key domain codec payload = .ok envelope →
      wire.openEnvelope envelope domain codec = .ok (payload, lib.publicKey key)

/-- What an indexer learns from an advertisement. -/
structure Listing where
  contextID : Ipld
  entries : List Ipld

section Reader

variable {K P : Type} [DecidableEq P] (deps : Deps K) (lib : HeadLib K P) (wire : WireLib P)

/-- The answers to `GET /:cid`, by the number of the request. -/
abbrev Answers := Nat → String → Except ProviderError Bytes

/-- An object is only taken under its own CID. -/
def fetchObject (get : Answers) (n : Nat) (cid : Cid) : Option Ipld :=
  match get n (lib.cidToString cid) with
  | .ok bytes => (wire.readObject bytes).filter fun o => deps.objCid o = some cid
  | .error _ => none

/-- The signature is by `publisher`, over the fields of the advertisement. -/
def signedBy (publisher : P) (ad : Advertisement) : Bool :=
  match ad.signature, ad.sigPayload deps with
  | .bytes envelope, .ok expected =>
      match wire.openEnvelope envelope adSignatureDomain adSignatureCodec with
      | .ok (payload, signer) => payload = expected && signer = publisher
      | .error _ => false
  | _, _ => false

/-- One advertisement, with the entries of its chunks from the oldest to the newest. -/
def readAd (get : Answers) (fuel : Nat) (publisher : P) (n : Nat) (o : Ipld) :
    Option (Listing × Nat) :=
  match Advertisement.ofIpld o with
  | none => none
  | some ad =>
      if signedBy deps wire publisher ad then
        match follow (Ipld.linkAt "Next") (fetchObject deps lib wire get) fuel n
            (ad.entries.bind Ipld.asLink) with
        | none => none
        | some (chunks, n) =>
            (chunks.mapM fun c => EntryChunk.ofIpld c.2).map fun chunks =>
              (⟨ad.contextID, (chunks.reverse.map EntryChunk.entries).flatten⟩, n)
      else none

def readAds (get : Answers) (fuel : Nat) (publisher : P) : Nat → List Ipld → Option (List Listing)
  | _, [] => some []
  | n, o :: rest =>
      match readAd deps lib wire get fuel publisher n o with
      | none => none
      | some (listing, n) => (readAds get fuel publisher n rest).map (listing :: ·)

/-- The publisher and all its listings, oldest first. -/
def ingest (fuel : Nat) (headText : String) (get : Answers) : Option (P × List Listing) :=
  match SignedHead.ofText lib headText with
  | .error _ => none
  | .ok signed =>
      match signed.open lib with
      | .error _ => none
      | .ok (publisher, head) =>
          match follow (Ipld.linkAt "PreviousID") (fetchObject deps lib wire get) fuel 0
              (some head) with
          | none => none
          | some (ads, n) =>
              (readAds deps lib wire get fuel publisher n (ads.map Prod.snd)).map fun listings =>
                (publisher, listings.reverse)

end Reader

/-! ## What the reader makes of what is served -/

section Reading

variable {K P : Type} [DecidableEq P] {deps : Deps K} {lib : HeadLib K P} {wire : WireLib P}
  {get : Answers} {blockstore : Cid → Option Ipld}

/-- Each request is answered from a blockstore that has what this one has. -/
def Served (deps : Deps K) (blockstore : Cid → Option Ipld) (get : Answers) : Prop :=
  ∀ n, ∃ s : Shared, Keeps deps.objCid blockstore s.blockstore ∧ get n = fun text => getBlock deps text s

omit [DecidableEq P] in
theorem Served.fetch (served : Served deps blockstore get) (lawful : wire.Lawful deps lib) (n : Nat)
    {o : Ipld} {cid : Cid} (own : deps.objCid o = some cid) (stored : blockstore cid = some o) :
    fetchObject deps lib wire get n cid = some o := by
  obtain ⟨s, keeps, answer⟩ := served n
  simp [fetchObject, answer, getBlock, lawful.text, keeps o cid own stored, lawful.reads o cid own, own]

/-- The advertisement is signed by the node. -/
def AdSigned (deps : Deps K) (keypair : K) (ad : Advertisement) : Prop :=
  ∃ envelope payload, ad.signature = .bytes envelope ∧ ad.sigPayload deps = .ok payload ∧
    deps.signedEnvelope keypair adSignatureDomain adSignatureCodec payload = .ok envelope

theorem AdSigned.signedBy (lawful : wire.Lawful deps lib) {keypair : K} {ad : Advertisement}
    (signed : AdSigned deps keypair ad) :
    signedBy deps wire (lib.publicKey keypair) ad = true := by
  obtain ⟨envelope, payload, signature, digest, sealed⟩ := signed
  simp [Rpc.signedBy, signature, digest, lawful.opens _ _ _ _ _ sealed]

omit [DecidableEq P] in
/-- What is signed has links, or nothing, where links belong. -/
theorem AdSigned.ofIpld {keypair : K} {ad : Advertisement} (signed : AdSigned deps keypair ad) :
    Advertisement.ofIpld ad.toIpld = some ad := by
  obtain ⟨-, payload, -, digest, -⟩ := signed
  rw [Advertisement.sigPayload_eq] at digest
  cases bytes : ad.signedBytes with
  | error e =>
      rw [bytes] at digest
      cases digest
  | ok signedBytes =>
      obtain ⟨previous, entries, -, isPrevious, isEntries, -, -⟩ :=
        Advertisement.signedBytes_ok bytes
      apply Advertisement.ofIpld_toIpld
      · rw [isPrevious]
        cases previous <;> simp
      · rw [isEntries]
        cases entries <;> simp

omit [DecidableEq P] in
/-- Chunks are read with the entries they were written with. -/
theorem readChunks (chunks : List (Cid × EntryChunk)) :
    ∃ read, (chunks.map fun e => (e.1, e.2.toIpld)).mapM (fun c => EntryChunk.ofIpld c.2) =
        some read ∧ read.map EntryChunk.entries = chunks.map fun e => e.2.entries := by
  induction chunks with
  | nil => exact ⟨[], rfl, rfl⟩
  | cons e rest ih =>
      obtain ⟨read, isRead, entries⟩ := ih
      refine ⟨{ e.2 with next := Advertisement.optional e.2.next } :: read, ?_, ?_⟩
      · simp [EntryChunk.ofIpld_toIpld, isRead]
      · simp [entries]

theorem readAd_of_chain (lawful : wire.Lawful deps lib) (served : Served deps blockstore get)
    {keypair : K} {ad : Advertisement} (signed : AdSigned deps keypair ad)
    {chunks : List (Cid × EntryChunk)}
    (chain : EntryChain deps blockstore (ad.entries.bind Ipld.asLink) chunks) {fuel : Nat}
    (enough : chunks.length ≤ fuel) (n : Nat) :
    readAd deps lib wire get fuel (lib.publicKey keypair) n ad.toIpld =
      some (⟨ad.contextID, (chunks.reverse.map fun c => c.2.entries).flatten⟩,
        n + chunks.length) := by
  have followed := chain.walk.follow (fetchObject deps lib wire get)
    (fun n e member => served.fetch lawful n (chain.addressed_objects e member)
      (chain.walk.get_eq e member)) (by simpa using enough) n
  obtain ⟨read, isRead, entries⟩ := readChunks chunks
  have oldestFirst : read.reverse.map EntryChunk.entries = chunks.reverse.map fun c => c.2.entries := by
    rw [List.map_reverse, entries, List.map_reverse]
  simp only [readAd, signed.ofIpld, signed.signedBy lawful, if_true, followed, isRead,
    Option.map_some, oldestFirst, List.length_map]

/-- What an indexer is meant to learn of a root. -/
structure Lists (deps : Deps K) (B : Blocks) (store : Store) (listing : Listing) (root : Cid) :
    Prop where
  contextID : listing.contextID = contextOf root
  complete : Complete B store root
  entries : ∃ dag, DagOf B store root dag ∧ listing.entries = dagEntries deps dag

/-- Signed advertisements that offer some roots are read as listings of these roots. -/
theorem readAds_of_offers (lawful : wire.Lawful deps lib) (served : Served deps blockstore get)
    {keypair : K} {B : Blocks} {store : Store} {ads : List (Cid × Advertisement)} {roots : List Cid}
    (offers : List.Forall₂ (Offers deps B store blockstore) ads roots)
    (signed : ∀ e ∈ ads, AdSigned deps keypair e.2) :
    ∃ listings enough, List.Forall₂ (Lists deps B store) listings roots ∧
      ∀ fuel, enough ≤ fuel → ∀ n,
        readAds deps lib wire get fuel (lib.publicKey keypair) n (ads.map fun e => e.2.toIpld) =
          some listings := by
  induction offers with
  | nil => exact ⟨[], 0, .nil, fun _ _ _ => rfl⟩
  | @cons e root ads roots offer _ ih =>
      obtain ⟨own, others⟩ := List.forall_mem_cons.mp signed
      obtain ⟨listings, enough, lists, read⟩ := ih others
      obtain ⟨dag, chunks, dagOf, chain, listed⟩ := offer.entries
      refine ⟨⟨e.2.contextID, (chunks.reverse.map fun c => c.2.entries).flatten⟩ :: listings,
        max enough chunks.length, .cons ⟨offer.context, offer.complete, dag, dagOf, listed⟩ lists, ?_⟩
      intro fuel bound n
      have one := readAd_of_chain lawful served own chain
        (Nat.le_trans (Nat.le_max_right _ _) bound) n
      have rest := read fuel (Nat.le_trans (Nat.le_max_left _ _) bound) (n + chunks.length)
      simp only [List.map_cons, readAds, one, rest, Option.map_some]

/-- **A reader of a catalogue.**  From a served head, a reader that asks often enough gets the
listings of all the roots that are advertised, oldest first. -/
theorem ingest_of_catalogue (lawful : wire.Lawful deps lib) (served : Served deps blockstore get)
    {p : Provider K} {B : Blocks} {store : Store} {s : Shared} {roots : List Cid}
    (chain : Walk (Ipld.linkAt "PreviousID") blockstore s.head s.ads)
    (addressed : ∀ e ∈ s.ads, deps.objCid e.2 = some e.1)
    (offers : List.Forall₂ (Offers deps B store blockstore) s.published.reverse roots)
    (signed : ∀ e ∈ s.published, AdSigned deps p.keypair e.2) {h : SignedHead}
    (isHead : headHandler lib p s = .ok h) :
    ∃ listings enough, List.Forall₂ (Lists deps B store) listings roots ∧
      ∀ fuel, enough ≤ fuel →
        ingest deps lib wire fuel (h.toText lib) get = some (lib.publicKey p.keypair, listings) := by
  obtain ⟨head, h', current, isText, opens⟩ := served_head_opens lawful.head isHead
  have newestFirst : List.Forall₂ (Offers deps B store blockstore) s.published roots.reverse := by
    rw [← List.reverse_reverse s.published]
    exact List.rel_reverse offers
  obtain ⟨listings, enough, lists, read⟩ := readAds_of_offers lawful served newestFirst signed
  refine ⟨listings.reverse, max enough s.ads.length, ?_, ?_⟩
  · rw [← List.reverse_reverse roots]
    exact List.rel_reverse lists
  · intro fuel bound
    rw [current] at chain
    have followed := chain.follow (fetchObject deps lib wire get)
      (fun n e member => served.fetch lawful n (addressed e member) (chain.get_eq e member))
      (Nat.le_trans (Nat.le_max_right _ _) bound) 0
    have objects : s.ads.map Prod.snd = s.published.map fun e => e.2.toIpld := by
      simp [Shared.ads]
    have all := read fuel (Nat.le_trans (Nat.le_max_left _ _) bound) (0 + s.ads.length)
    simp only [ingest, isText, opens, followed, objects, all, Option.map_some]

end Reading

/-! ## Advertisements are signed -/

section Signed

variable {K : Type} {deps : Deps K} {B : Blocks} {car : CarCodec} {is : Cid → Bytes → Prop}

def AllSigned (deps : Deps K) (keypair : K) (s : Shared) : Prop :=
  ∀ e ∈ s.published, AdSigned deps keypair e.2

/-- Whatever the provider does, what it publishes is signed. -/
theorem along_signed (p : Provider K) :
    Along deps p fun s t => AllSigned deps p.keypair s → AllSigned deps p.keypair t where
  refl _ := id
  trans _ _ _ first second signed := second (first signed)
  queue _ _ := id
  create _ _ _ := id
  addChunk fault bytes id s signed := by
    rcases addChunk_cases deps fault bytes id s with ⟨_, _, _, -, -, -, -, result⟩ | ⟨-, unchanged⟩
    · rw [result]
      exact signed
    · rw [unchanged]
      exact signed
  publish faults id s signed := by
    rcases publish_cases deps p faults id s with
      ⟨ad, cid, publishes, result⟩ | ⟨-, result⟩ | ⟨-, -, _, result⟩
    · rw [result]
      obtain ⟨pending, -, sealing⟩ := publishes.sealed
      obtain ⟨envelope, payload, isSealed, digest, sealed⟩ := Advertisement.seal_signed sealing
      have own : AdSigned deps p.keypair ad := ⟨envelope, payload, by rw [isSealed], digest, sealed⟩
      exact List.forall_mem_cons.mpr ⟨own, signed⟩
    · rw [result]
      exact signed
    · rw [result]
      exact signed

namespace Server

variable {s t : Server K}

/-- What the process has published is signed with its key. -/
def Signs (deps : Deps K) (s : Server K) : Prop :=
  AllSigned deps s.node.service.indexProvider.keypair s.node.service.shared

theorem ServiceStep.signs {u v : UrsaService K} (turned : ServiceStep deps B is u v)
    (signs : AllSigned deps u.indexProvider.keypair u.shared) :
    AllSigned deps v.indexProvider.keypair v.shared := by
  cases turned with
  | same => exact signs
  | turn input v genuine taken =>
      rw [UrsaService.step_indexProvider taken]
      exact (along_signed u.indexProvider).step taken signs
  | write cid data genuine => exact signs

theorem Signs.step (signs : Signs deps s) (inv : LifeInv deps B car is s) {input : LifeInput K}
    (genuine : LifeGenuine deps car is s input) (taken : s.lifeStep deps B car input = some t) :
    Signs deps t := by
  cases input with
  | restart boot =>
      cases taken
      exact List.forall_mem_nil _
  | server input => exact (serviceStep inv.server genuine taken).signs signs

/-- **An indexer reads what was indexed.**  Take any life of a node, with uploads, turns and
restarts in any order, in which blocks that are written are what their CIDs stand for, and a
head that is served in it while the loop of its process runs.  A reader that starts from the
text of that head gets, if it asks often enough, and whenever later in the life each of its
requests is answered, the node's public key and one listing for each root that the process has
advertised: those it was told to index, oldest first, but for the ones still queued.  A listing
names the root and holds the multihashes of exactly the blocks of its DAG, which the store
has. -/
theorem indexers_read_what_was_indexed {P : Type} [DecidableEq P] (deps : Deps K)
    (lib : HeadLib K P) (wire : WireLib P) (reading : wire.Lawful deps lib) (B : Blocks)
    (car : CarCodec) (peerId : PeerId) (config : NetworkConfig) (store : Store)
    (indexProvider : Provider K) (blockstore : Cid → Option Ipld)
    (lawful : Lawful deps indexProvider.keypair) (is : Cid → Bytes → Prop) (single : Single is)
    (clean : Clean is store) (before : List (LifeInput K)) (s : Server K)
    (life : exec (lifeStep deps B car)
      (new (.new (.new peerId config store indexProvider blockstore))) before = some s)
    (genuine : Meets (lifeStep deps B car) (LifeGenuine deps car is)
      (new (.new (.new peerId config store indexProvider blockstore))) before)
    (running : s.node.service.status = .running) (h : SignedHead)
    (served : headHandler lib s.node.service.indexProvider s.node.service.shared = .ok h)
    (after : Nat → List (LifeInput K)) (answering : Nat → Server K)
    (later : ∀ n, exec (lifeStep deps B car) s (after n) = some (answering n))
    (genuine' : ∀ n, Meets (lifeStep deps B car) (LifeGenuine deps car is) s (after n)) :
    ∃ roots listings enough,
      s.node.service.history.enqueued = roots ++ s.node.service.shared.rootCids ∧
      List.Forall₂ (Lists deps B s.store) listings roots ∧
      ∀ fuel, enough ≤ fuel →
        ingest deps lib wire fuel (h.toText lib)
          (fun n text => getBlock deps text (answering n).node.service.shared) =
            some (lib.publicKey s.node.service.indexProvider.keypair, listings) := by
  have lived : LifeInv deps B car is s ∧ Signs deps s := by
    refine exec_invariant (I := fun u : Server K => LifeInv deps B car is u ∧ Signs deps u) ?_
      ⟨lifeInv_new peerId config blockstore clean lawful, List.forall_mem_nil _⟩ genuine life
    rintro u input v ⟨inv, signs⟩ genuine taken
    exact ⟨(inv.step single genuine taken).2, signs.step inv genuine taken⟩
  obtain ⟨inv, signs⟩ := lived
  obtain ⟨indexed, catalogued⟩ := inv.catalogued running
  obtain ⟨roots, enqueued, offers⟩ := catalogued.offers
  have answers : Served deps s.node.service.shared.blockstore
      (fun n text => getBlock deps text (answering n).node.service.shared) :=
    fun n => ⟨_, (inv.run single (later n) (genuine' n)).1.keeps, rfl⟩
  obtain ⟨listings, enough, lists, read⟩ := ingest_of_catalogue reading answers
    indexed.chain.chain indexed.chain.addressed_ads offers signs served
  exact ⟨roots, listings, enough, enqueued, lists, read⟩

end Server

end Signed

/-! ## A reader of the sample node -/

/-- DAG-CBOR where it can write the object; no item starts with `0xff`. -/
def wireBytes (o : Ipld) : Bytes :=
  match DagCbor.toVec o with
  | .ok b => b
  | .error _ => 0xff :: wide o

noncomputable def wireRead : Bytes → Option Ipld
  | 0xff :: code => Function.partialInv wide code
  | b => (DagCbor.fromSlice b).toOption

theorem wireRead_wireBytes (o : Ipld) : wireRead (wireBytes o) = some o := by
  unfold wireBytes
  split
  · rename_i b written
    have read := DagCbor.fromSlice_toVec written
    unfold wireRead
    split
    · rename_i code
      have noItem : DagCbor.fromSlice (0xff :: code) = .error "not DAG-CBOR" := rfl
      rw [noItem] at read
      cases read
    · rw [read]
      rfl
  · have injective : Function.Injective wide := fun v w same =>
      (wide_inj v w [] [] (by rw [same])).1
    exact Function.partialInv_left injective o

def wireDeps : Deps Unit :=
  { plainDeps with
    objBytes := wireBytes
    cidFromStr := plainHeadLib.cidTryFrom }

theorem wireDeps_lawful : Lawful wireDeps () where
  collisionFree := plainDeps_lawful.collisionFree
  readsBack := plainDeps_lawful.readsBack
  shortHashes := plainDeps_lawful.shortHashes
  chunkAddressed := plainDeps_lawful.chunkAddressed
  adAddressed := plainDeps_lawful.adAddressed
  signs := plainDeps_lawful.signs

def wireHeadLib : HeadLib Unit Bytes :=
  { plainHeadLib with
    sign := fun _ => plainHeadLib.sign [7]
    publicKey := fun _ => [7] }

noncomputable def wireLib : WireLib Bytes where
  readObject := wireRead
  openEnvelope envelope domain codec :=
    (plainOpen envelope domain codec).map fun opened => (opened.1, [7])

theorem wireLib_lawful : wireLib.Lawful wireDeps wireHeadLib where
  head :=
    { verify_sign := fun _ => plainHeadLib_lawful.verify_sign [7]
      protobuf := plainHeadLib_lawful.protobuf
      text := plainHeadLib_lawful.text }
  text := plainHeadLib_lawful.text
  reads o _ _ := wireRead_wireBytes o
  opens key domain codec payload envelope signed := by
    cases signed
    simp [wireLib, wireHeadLib, plainOpen, List.isPrefixOf_iff_prefix, Except.map]

namespace Server

/-- All the objects are asked for after the node was started again. -/
theorem indexers_read_what_was_indexed_sample :
    ∃ (s t : Server Unit) (h : SignedHead) (listing : Listing) (enough : Nat),
      exec (lifeStep wireDeps plainBlocks plainCar)
        (new (.new (UrsaService.sampleService .empty))) uploadAndPublish = some s ∧
      exec (lifeStep wireDeps plainBlocks plainCar) s stopAndStart = some t ∧
      Lists wireDeps plainBlocks s.store listing UrsaService.sampleRoot.1 ∧
      ∀ fuel, enough ≤ fuel →
        ingest wireDeps wireHeadLib wireLib fuel (h.toText wireHeadLib)
          (fun _ text => getBlock wireDeps text t.node.service.shared) =
            some ([7], [listing]) := by
  have evaluated : (exec (lifeStep wireDeps plainBlocks plainCar)
      (new (.new (UrsaService.sampleService .empty))) uploadAndPublish).map (fun s =>
        (s.node.service.status, s.node.service.history.enqueued,
          s.node.service.shared.rootCids)) =
      some (.running, [UrsaService.sampleRoot.1], []) := by decide +kernel
  have signed : (exec (lifeStep wireDeps plainBlocks plainCar)
      (new (.new (UrsaService.sampleService .empty))) uploadAndPublish).map (fun s =>
        (headHandler wireHeadLib s.node.service.indexProvider
          s.node.service.shared).toOption.isSome) = some true := by decide +kernel
  have restarted : (exec (lifeStep wireDeps plainBlocks plainCar)
      (new (.new (UrsaService.sampleService .empty))) (uploadAndPublish ++ stopAndStart)).isSome =
        true := by decide +kernel
  obtain ⟨s, life, facts⟩ := Option.map_eq_some_iff.mp evaluated
  simp only [Prod.mk.injEq] at facts
  obtain ⟨running, enqueued, queue⟩ := facts
  obtain ⟨t, whole⟩ := Option.isSome_iff_exists.mp restarted
  obtain ⟨s', life', later⟩ := (exec_append_iff _).mp whole
  obtain rfl : s = s' := Option.some.inj (life.symm.trans life')
  rw [life, Option.map_some, Option.some_inj] at signed
  obtain ⟨h, served⟩ : ∃ h, headHandler wireHeadLib s.node.service.indexProvider
      s.node.service.shared = .ok h := by
    cases made : headHandler wireHeadLib s.node.service.indexProvider s.node.service.shared with
    | ok h => exact ⟨h, rfl⟩
    | error e =>
        rw [made] at signed
        cases signed
  obtain ⟨roots, listings, enough, all, lists, read⟩ := indexers_read_what_was_indexed wireDeps
    wireHeadLib wireLib wireLib_lawful plainBlocks plainCar _ _ _ _ _ wireDeps_lawful SampleBlock
    sampleBlock_single sampleBlock_clean uploadAndPublish s life (genuine_uploadAndPublish _ _)
    running h served (fun _ => stopAndStart) (fun _ => t) (fun _ => later)
    (fun _ => genuine_stopAndStart wireDeps_lawful s)
  rw [enqueued, queue, List.append_nil] at all
  subst all
  obtain ⟨listing, rfl, only⟩ : ∃ listing, listings = [listing] ∧
      Lists wireDeps plainBlocks s.store listing UrsaService.sampleRoot.1 := by
    cases lists with
    | cons one none =>
        cases none
        exact ⟨_, rfl, one⟩
  exact ⟨s, t, h, listing, enough, life, later, only, read⟩

end Server

end Ursa.Rpc

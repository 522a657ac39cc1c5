/-
# IndexProvider.Provider — the index provider's shared state and its operations

`ursa-index-provider/src/provider.rs`.  A `Provider` value holds its keypair and
configuration by value and everything else behind `Arc`s, so all clones of one
provider act on one `Shared` state.  Each operation runs with the write locks of
what it changes held to its end, so it is one function on `Shared`.

* `create` puts an advertisement among the pending ones, under the number the
  random generator drew.
* `addChunk` stores an entry chunk that links to the pending advertisement's
  newest chunk, and makes the advertisement link to it.
* `publish` takes the head and the pending advertisement out, links the
  advertisement to that head, signs and stores it, and makes it the head.
* `createAnnounceMsg` builds the announcement of the current head, and
  `announceHttpMessage` sends it to the configured indexer.

Every fallible call outside the repository (`WriteFaults`, `putObj`) may fail.
`Shared.published` is a history: the code never reads it.
-/
import Ursa.Theory.Outcome
import Ursa.IndexProvider.Advertisement
import Mathlib.Logic.Function.Basic

namespace Ursa.IndexProvider

set_option autoImplicit false

open Ursa.Theory (Outcome)

/-- What the node's configuration file says about the index provider. -/
structure ProviderConfig where
  /-- The domain where the provider is listening. -/
  domain : String
  /-- The indexer that HTTP announcements go to. -/
  indexerUrl : String

/-- The fields of a provider that a clone copies by value. -/
structure Provider (K : Type) where
  keypair : K
  config : ProviderConfig

/-- The fields of a provider behind an `Arc`, shared by all its clones. -/
structure Shared where
  head : Option Cid
  rootCids : List Cid
  blockstore : Cid → Option Ipld
  tempAds : Nat → Option Advertisement
  /-- History: the advertisements published so far with their CIDs, newest first. -/
  published : List (Cid × Advertisement)

/-- `Provider::new`: the blockstore may hold anything. -/
def Shared.new (blockstore : Cid → Option Ipld) : Shared :=
  { head := none, rootCids := [], blockstore, tempAds := fun _ => none, published := [] }

inductive ProviderErr where
  | adNotFound
  | signature (e : AdSigError)
  | toIpld (reason : String)
  | putObj (reason : String)
  deriving DecidableEq, Repr

section Operations

variable {K : Type} (deps : Deps K)

/-! ## The blockstore -/

/-- `BlockStoreExt::put_obj`: serialise, hash, write. -/
def putObj (fault : Option String) (o : Ipld) (s : Shared) : Except String Cid × Shared :=
  match deps.objCid o, fault with
  | none, _ => (.error "serialisation failed", s)
  | some _, some reason => (.error reason, s)
  | some cid, none => (.ok cid, { s with blockstore := Function.update s.blockstore cid (some o) })

/-! ## Operations -/

/-- `create`: `id` is the number drawn for the new advertisement. -/
def create (ad : Advertisement) (id : Nat) (s : Shared) : Outcome ProviderErr Nat × Shared :=
  (.ok id, { s with tempAds := Function.update s.tempAds id (some { ad with entries := none }) })

def addChunk (fault : Option String) (bytes : Bytes) (id : Nat) (s : Shared) :
    Outcome ProviderErr Unit × Shared :=
  match deps.fromSlice bytes with
  | .error _ => (.panic "called `Result::unwrap()` on an `Err` value", s)
  | .ok entries =>
      match s.tempAds id with
      | none => (.err .adNotFound, s)
      | some ad =>
          let chunk := EntryChunk.new entries ad.entries
          match putObj deps fault chunk.toIpld s with
          | (.error reason, s) => (.err (.putObj reason), s)
          | (.ok cid, s) =>
              let ad := { ad with entries := some (.link (convertCid cid.toBytes)) }
              (.ok (), { s with tempAds := Function.update s.tempAds id (some ad) })

/-- The advertisement as `publish` stores it: linked to the head and signed. -/
def Advertisement.seal (ad : Advertisement) (keypair : K) (currentHead : Option Cid) :
    Except AdSigError Advertisement := do
  let ad := { ad with
    previousID := currentHead.map fun (head : Cid) => Ipld.link (convertCid head.toBytes) }
  let sig ← ad.sign deps keypair
  return { ad with signature := .bytes sig }

/-- How the fallible calls of one `publish` answer. -/
structure WriteFaults where
  toIpld : Option String
  putObj : Option String
  deriving DecidableEq, Repr

def WriteFaults.none : WriteFaults := { toIpld := .none, putObj := .none }

def publish (p : Provider K) (faults : WriteFaults) (id : Nat) (s : Shared) :
    Outcome ProviderErr Unit × Shared :=
  let currentHead := s.head
  -- `head.take()`: from here on every early return leaves the head empty
  let s := { s with head := none }
  match s.tempAds id with
  | none => (.err .adNotFound, s)
  | some ad =>
      let s := { s with tempAds := Function.update s.tempAds id none }
      match ad.seal deps p.keypair currentHead with
      | .error e => (.err (.signature e), s)
      | .ok ad =>
          match faults.toIpld with
          | some reason => (.err (.toIpld reason), s)
          | none =>
              match putObj deps faults.putObj ad.toIpld s with
              | (.error reason, s) => (.err (.putObj reason), s)
              | (.ok cid, s) =>
                  (.ok (), { s with head := some cid, published := (cid, ad) :: s.published })

/-! ## Announcements -/

structure Message where
  cid : Cid
  addrs : List Multiaddr

/-- `create_announce_msg`, up to the CBOR encoding of the message: the address
comes from the configuration, the CID is the head at this moment. -/
def createAnnounceMsg (p : Provider K) (peerId : PeerId) (s : Shared) :
    Outcome String Message :=
  match deps.multiaddrFromStr p.config.domain with
  | .error reason => .err reason
  | .ok domain =>
      match deps.multiaddrFromStr (domain.toString ++ "/http/p2p/" ++ peerId.toBase58) with
      | .error reason => .err reason
      | .ok address =>
          match s.head with
          | none => .panic "no head found for announcement"
          | some head => .ok { cid := head, addrs := [address] }

/-- `announce_http_message`.  `surf::put` panics on text that is no URL; what the request
comes to (`put`: the status it is answered with, or why it is not answered) is only logged. -/
def announceHttpMessage {ε : Type} (p : Provider K) (put : Message → Except String Nat)
    (announceMsg : Message) : Outcome ε (Except String Nat) :=
  if deps.parsesUrl (p.config.indexerUrl ++ "/ingest/announce") then .ok (put announceMsg)
  else .panic "called `Result::unwrap()` on an `Err` value"

/-! ## The HTTP handler -/

inductive ProviderError where
  | notFoundError (message : String)
  | internalError (message : String)
  deriving DecidableEq, Repr

/-- The `get_block` handler. -/
def getBlock (cid : String) (s : Shared) : Except ProviderError Bytes :=
  match deps.cidFromStr cid with
  | .error reason => .error (.internalError reason)
  | .ok cid =>
      match s.blockstore cid with
      | some o => .ok (deps.objBytes o)
      | none => .error (.notFoundError "Block not found")

/-! ## What one operation can do -/

variable {deps}

theorem putObj_ok {fault : Option String} {o : Ipld} {s : Shared} {cid : Cid} {s' : Shared}
    (put : putObj deps fault o s = (.ok cid, s')) :
    deps.objCid o = some cid ∧ fault = none ∧
      s' = { s with blockstore := Function.update s.blockstore cid (some o) } := by
  unfold putObj at put
  split at put
  · cases put
  · cases put
  · rename_i addressed
    cases put
    exact ⟨addressed, rfl, rfl⟩

theorem putObj_error {fault : Option String} {o : Ipld} {s : Shared} {reason : String}
    {s' : Shared} (put : putObj deps fault o s = (.error reason, s')) : s' = s := by
  unfold putObj at put
  split at put <;> cases put <;> rfl

variable (deps) in
/-- An `addChunk` either grows the chunk chain of the pending advertisement by one
stored chunk, or fails and changes nothing. -/
theorem addChunk_cases (fault : Option String) (bytes : Bytes) (id : Nat) (s : Shared) :
    (∃ entries ad cid, deps.fromSlice bytes = .ok entries ∧ s.tempAds id = some ad ∧
      fault = none ∧ deps.objCid (EntryChunk.new entries ad.entries).toIpld = some cid ∧
      addChunk deps fault bytes id s = (.ok (), { s with
        blockstore := Function.update s.blockstore cid
          (some (EntryChunk.new entries ad.entries).toIpld)
        tempAds := Function.update s.tempAds id
          (some { ad with entries := some (.link cid) }) })) ∨
    ((addChunk deps fault bytes id s).1 ≠ .ok () ∧ (addChunk deps fault bytes id s).2 = s) := by
  unfold addChunk
  split
  · exact .inr ⟨by simp, rfl⟩
  · rename_i entries decoded
    split
    · exact .inr ⟨by simp, rfl⟩
    · rename_i ad pending
      dsimp only
      split
      · rename_i reason s' put
        exact .inr ⟨by simp, putObj_error put⟩
      · rename_i cid s' put
        obtain ⟨addressed, noFault, rfl⟩ := putObj_ok put
        exact .inl ⟨entries, ad, cid, decoded, pending, noFault, addressed, rfl⟩

theorem addChunk_ends (fault : Option String) (bytes : Bytes) (id : Nat) (s : Shared) :
    (addChunk deps fault bytes id s).1 ≠ .diverge := by
  unfold addChunk
  split
  · simp
  · split
    · simp
    · dsimp only
      split <;> simp

/-- `id` names a pending advertisement whose signing, conversion and write all
succeed: `ad` is what gets stored, `cid` where. -/
structure Publishes (deps : Deps K) (p : Provider K) (faults : WriteFaults) (id : Nat) (s : Shared)
    (ad : Advertisement) (cid : Cid) : Prop where
  sealed : ∃ pending, s.tempAds id = some pending ∧ pending.seal deps p.keypair s.head = .ok ad
  converted : faults.toIpld = none
  written : faults.putObj = none
  addressed : deps.objCid ad.toIpld = some cid

/-- What a successful `publish` leaves behind. -/
def afterPublish (id : Nat) (s : Shared) (ad : Advertisement) (cid : Cid) : Shared :=
  { s with
    head := some cid
    tempAds := Function.update s.tempAds id none
    blockstore := Function.update s.blockstore cid (some ad.toIpld)
    published := (cid, ad) :: s.published }

variable (deps) in
/-- A `publish` succeeds, or finds no advertisement, or loses the one it found. -/
theorem publish_cases (p : Provider K) (faults : WriteFaults) (id : Nat) (s : Shared) :
    (∃ ad cid, Publishes deps p faults id s ad cid ∧
      publish deps p faults id s = (.ok (), afterPublish id s ad cid)) ∨
    (s.tempAds id = none ∧
      publish deps p faults id s = (.err .adNotFound, { s with head := none })) ∨
    (s.tempAds id ≠ none ∧ (∀ ad cid, ¬ Publishes deps p faults id s ad cid) ∧
      ∃ e, publish deps p faults id s = (.err e, { s with
        head := none, tempAds := Function.update s.tempAds id none })) := by
  unfold publish
  dsimp only
  split
  · rename_i absent
    exact .inr (.inl ⟨absent, rfl⟩)
  · rename_i pending found
    have present : s.tempAds id ≠ none := by simp [found]
    split
    · rename_i e failed
      refine .inr (.inr ⟨present, ?_, _, rfl⟩)
      rintro ad cid ⟨⟨pending', found', sealed⟩, -, -, -⟩
      cases found.symm.trans found'
      rw [failed] at sealed
      cases sealed
    · rename_i ad sealed
      split
      · rename_i reason converting
        refine .inr (.inr ⟨present, ?_, _, rfl⟩)
        rintro ad' cid ⟨-, converted, -, -⟩
        rw [converting] at converted
        cases converted
      · rename_i converted
        split
        · rename_i reason s' put
          have unchanged := putObj_error put
          refine .inr (.inr ⟨present, ?_, .putObj reason, by rw [unchanged]⟩)
          rintro ad' cid ⟨⟨pending', found', sealed'⟩, -, written, addressed⟩
          cases found.symm.trans found'
          cases sealed.symm.trans sealed'
          unfold putObj at put
          rw [addressed, written] at put
          cases put
        · rename_i cid s' put
          obtain ⟨addressed, written, rfl⟩ := putObj_ok put
          exact .inl ⟨ad, cid, ⟨⟨pending, found, sealed⟩, converted, written, addressed⟩, rfl⟩

theorem publish_ends (p : Provider K) (faults : WriteFaults) (id : Nat) (s : Shared) :
    (publish deps p faults id s).1 ≠ .diverge := by
  rcases publish_cases deps p faults id s with ⟨_, _, -, result⟩ | ⟨-, result⟩ | ⟨-, -, e, result⟩
  all_goals simp [result]

theorem createAnnounceMsg_ends (p : Provider K) (peerId : PeerId) (s : Shared) :
    createAnnounceMsg deps p peerId s ≠ .diverge := by
  unfold createAnnounceMsg
  repeat' split
  all_goals simp

theorem announceHttpMessage_ends {ε : Type} (p : Provider K) (put : Message → Except String Nat)
    (announceMsg : Message) :
    (announceHttpMessage deps p put announceMsg : Outcome ε (Except String Nat)) ≠ .diverge := by
  unfold announceHttpMessage
  split <;> simp

/-- What is stored is signed as it is stored: the digest in the envelope is the digest of
the advertisement's own fields. -/
theorem Advertisement.seal_signed {ad sealed : Advertisement} {keypair : K} {head : Option Cid}
    (sealing : ad.seal deps keypair head = .ok sealed) :
    ∃ envelope payload,
      sealed = { ad with previousID := head.map Ipld.link, signature := .bytes envelope } ∧
      sealed.sigPayload deps = .ok payload ∧
      deps.signedEnvelope keypair adSignatureDomain adSignatureCodec payload = .ok envelope := by
  have linked : (fun h : Cid => Ipld.link (convertCid h.toBytes)) = Ipld.link := rfl
  simp only [Advertisement.seal, Advertisement.sign, linked] at sealing
  cases digest : Advertisement.sigPayload deps { ad with previousID := head.map Ipld.link } with
  | error e =>
      simp only [digest] at sealing
      cases sealing
  | ok payload =>
      cases signed : deps.signedEnvelope keypair adSignatureDomain adSignatureCodec payload with
      | error reason =>
          simp only [digest, bind, Except.bind, signed] at sealing
          cases sealing
      | ok envelope =>
          simp only [digest, bind, Except.bind, signed] at sealing
          cases sealing
          exact ⟨envelope, payload, rfl, digest, signed⟩

/-- With links and byte strings where they belong, there is a digest to sign. -/
theorem Advertisement.sigPayload_ok (ad : Advertisement) {previous link : Option Cid}
    {metadata : Bytes} (previousID : ad.previousID = previous.map Ipld.link)
    (entries : ad.entries = link.map Ipld.link) (isBytes : ad.metadata = .bytes metadata) :
    ∃ payload, ad.sigPayload deps = .ok payload := by
  unfold Advertisement.sigPayload
  rw [previousID, entries, isBytes]
  cases previous <;> cases link <;> exact ⟨_, rfl⟩

/-- Signing changes only the link and the signature. -/
theorem Advertisement.seal_eq {ad sealed : Advertisement} {keypair : K} {head : Option Cid}
    (sealing : ad.seal deps keypair head = .ok sealed) :
    ∃ sig, sealed = { ad with previousID := head.map Ipld.link, signature := .bytes sig } := by
  obtain ⟨envelope, _, same, -⟩ := Advertisement.seal_signed sealing
  exact ⟨envelope, same⟩

end Operations

end Ursa.IndexProvider

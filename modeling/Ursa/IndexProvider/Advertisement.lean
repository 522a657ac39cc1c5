/-
# IndexProvider.Advertisement — advertisements, entry chunks and their signatures

`ursa-index-provider/src/advertisement.rs`.  An advertisement names a provider and
a context, and links to a chain of entry chunks and to the advertisement before it.
Both are stored as IPLD maps (`toIpld`): a field whose serialiser is skipped when
absent has no key, any other absent field is `null`.

`Deps` collects the third-party functions the crate calls: the hash, the signed
envelope, the serialiser of entry lists, and the CID a stored object gets.
-/
import Ursa.Types

namespace Ursa.IndexProvider

set_option autoImplicit false

/-- The code outside the repository that the index provider calls. -/
structure Deps (Keypair : Type) where
  /-- `multihash::Code::Sha2_256.digest(..).to_bytes()` -/
  sha256 : Bytes → Bytes
  /-- `SignedEnvelope::new(key, domain, payload_type, payload)`, in its protobuf encoding. -/
  signedEnvelope : Keypair → String → String → Bytes → Except String Bytes
  /-- The CID `put_obj` stores an object under; `none` when it cannot be serialised. -/
  objCid : Ipld → Option Cid
  /-- The bytes `put_obj` stores for an object. -/
  objBytes : Ipld → Bytes
  /-- `forest_encoding::to_vec` on a list of IPLD values. -/
  toVec : List Ipld → Except String Bytes
  /-- `forest_encoding::from_slice` into a list of IPLD values. -/
  fromSlice : Bytes → Except String (List Ipld)
  /-- `cid.hash().to_bytes()` -/
  multihash : Cid → Bytes
  /-- `Cid::from_str` -/
  cidFromStr : String → Except String Cid
  /-- `Multiaddr::from_str` -/
  multiaddrFromStr : String → Except String Multiaddr
  /-- Whether a text parses as a URL; `surf::put` panics on one that does not. -/
  parsesUrl : String → Bool

/-! ## Metadata -/

/-- The low `w` bytes of `n`, least significant first. -/
def littleEndian : Nat → Nat → Bytes
  | 0, _ => []
  | w + 1, n => UInt8.ofNat (n % 256) :: littleEndian w (n / 256)

structure Metadata where
  /-- The protocol used for data retrieval. -/
  protocolID : Nat
  /-- What retrieval by that protocol needs. -/
  data : Bytes

/-- `bincode::serialize`: a `u128`, then a `u64` length and the data. -/
def Metadata.serialize (m : Metadata) : Bytes :=
  littleEndian 16 m.protocolID ++ littleEndian 8 m.data.length ++ m.data

/-! ## Advertisements -/

/-- At most this many entries go into one chunk. -/
def maxEntries : Nat := 6250000

def adSignatureCodec : String := "/indexer/ingest/adSignature"

def adSignatureDomain : String := "indexer"

structure Advertisement where
  /-- An optional link to the previous advertisement. -/
  previousID : Option Ipld
  /-- The peer id of the host that provides this advertisement. -/
  provider : String
  addresses : List String
  signature : Ipld
  /-- A link to the newest chunk of advertised multihashes. -/
  entries : Option Ipld
  contextID : Ipld
  metadata : Ipld
  isRm : Bool

/-- The errors `sign` can return. -/
inductive AdSigError where
  | invalidPreviousID
  | invalidEntryChunkLink
  | invalidMetadata
  | signingError (reason : String)
  deriving DecidableEq, Repr

namespace Advertisement

def new (contextId : Bytes) (provider : PeerId) (addresses : List String) (isRm : Bool) :
    Advertisement :=
  -- protocol id for bitswap
  let rawMetadata : Metadata := { protocolID := 0x0900, data := [] }
  { previousID := none
    provider := provider.toBase58
    addresses := addresses
    signature := .bytes []
    entries := none
    metadata := .bytes rawMetadata.serialize
    contextID := .bytes contextId
    isRm := isRm }

/-- The bytes of an optional link: absent is empty, anything but a link is an error. -/
def linkBytes (invalid : AdSigError) : Option Ipld → Except AdSigError Bytes
  | some (.link cid) => .ok cid.toBytes
  | none => .ok []
  | some _ => .error invalid

def metadataBytes : Ipld → Except AdSigError Bytes
  | .bytes b => .ok b
  | _ => .error .invalidMetadata

/-- The UTF-8 bytes of a string. -/
def asBytes (s : String) : Bytes := s.toByteArray.data.toList

/-- The digest that is signed. -/
def sigPayload {K : Type} (deps : Deps K) (ad : Advertisement) : Except AdSigError Bytes := do
  let previousIdBytes ← linkBytes .invalidPreviousID ad.previousID
  let entrychunkLinkBytes ← linkBytes .invalidEntryChunkLink ad.entries
  let metadata ← metadataBytes ad.metadata
  let isRmPayload : Bytes := if ad.isRm then [1] else [0]
  let payload := previousIdBytes ++ entrychunkLinkBytes ++ asBytes ad.provider
    ++ (ad.addresses.map asBytes).flatten ++ metadata ++ isRmPayload
  return deps.sha256 payload

def sign {K : Type} (deps : Deps K) (ad : Advertisement) (signingKey : K) :
    Except AdSigError Bytes := do
  let payload ← ad.sigPayload deps
  match deps.signedEnvelope signingKey adSignatureDomain adSignatureCodec payload with
  | .ok envelope => return envelope
  | .error reason => throw (.signingError reason)

/-- `forest_ipld::to_ipld`: the fields by key, `PreviousID` only when present. -/
def toIpld (ad : Advertisement) : Ipld :=
  .map ([("Addresses", .list (ad.addresses.map .string)), ("ContextID", ad.contextID),
      ("Entries", ad.entries.getD .null), ("IsRm", .bool ad.isRm), ("Metadata", ad.metadata)]
    ++ (ad.previousID.map fun p => ("PreviousID", p)).toList
    ++ [("Provider", .string ad.provider), ("Signature", ad.signature)])

/-- An optional field: no key and `null` are both absent. -/
def optional : Option Ipld → Option Ipld
  | some .null => none
  | field => field

def asString : Ipld → Option String
  | .string s => some s
  | _ => none

def asStrings : Ipld → Option (List String)
  | .list items => items.mapM asString
  | _ => none

def asBool : Ipld → Option Bool
  | .bool b => some b
  | _ => none

/-- The derived `Deserialize`: what a reader makes of a stored object. -/
def ofIpld (o : Ipld) : Option Advertisement := do
  let provider ← (o.get "Provider").bind asString
  let addresses ← (o.get "Addresses").bind asStrings
  let signature ← o.get "Signature"
  let contextID ← o.get "ContextID"
  let metadata ← o.get "Metadata"
  let isRm ← (o.get "IsRm").bind asBool
  return {
    previousID := optional (o.get "PreviousID"), provider, addresses, signature
    entries := optional (o.get "Entries"), contextID, metadata, isRm }

theorem asStrings_list (texts : List String) :
    asStrings (.list (texts.map .string)) = some texts := by
  rw [asStrings, List.mapM_map]
  induction texts with
  | nil => rfl
  | cons text rest ih =>
      rw [List.mapM_cons, ih]
      rfl

theorem optional_of_ne {field : Option Ipld} (present : field ≠ some .null) :
    optional field = field := by
  unfold optional
  split
  · exact absurd rfl present
  · rfl

theorem get_previousID (ad : Advertisement) : ad.toIpld.get "PreviousID" = ad.previousID := by
  cases h : ad.previousID <;> simp [Ipld.get, toIpld, h, List.lookup_cons]

theorem get_entries (ad : Advertisement) : ad.toIpld.get "Entries" = some (ad.entries.getD .null) := by
  simp [Ipld.get, toIpld, List.lookup_cons]

/-- A reader gets the advertisement that was written. -/
theorem ofIpld_toIpld (ad : Advertisement) (previous : ad.previousID ≠ some .null)
    (entries : ad.entries ≠ some .null) : ofIpld ad.toIpld = some ad := by
  have link : optional (some (ad.entries.getD .null)) = ad.entries := by
    cases present : ad.entries with
    | none => rfl
    | some l => exact optional_of_ne (present ▸ entries)
  have provider : ad.toIpld.get "Provider" = some (.string ad.provider) := by
    cases h : ad.previousID <;> simp [Ipld.get, toIpld, h, List.lookup_cons]
  have signature : ad.toIpld.get "Signature" = some ad.signature := by
    cases h : ad.previousID <;> simp [Ipld.get, toIpld, h, List.lookup_cons]
  have addresses : ad.toIpld.get "Addresses" = some (.list (ad.addresses.map .string)) := by
    simp [Ipld.get, toIpld]
  have contextID : ad.toIpld.get "ContextID" = some ad.contextID := by
    simp [Ipld.get, toIpld, List.lookup_cons]
  have metadata : ad.toIpld.get "Metadata" = some ad.metadata := by
    simp [Ipld.get, toIpld, List.lookup_cons]
  have isRm : ad.toIpld.get "IsRm" = some (.bool ad.isRm) := by
    simp [Ipld.get, toIpld, List.lookup_cons]
  simp only [ofIpld, get_previousID, get_entries, link, provider, signature, addresses, contextID,
    metadata, isRm, optional_of_ne previous, Option.bind_some, asString, asStrings_list, asBool]
  rfl

/-- The advertisement the stored object links back to. -/
@[simp] theorem linkAt_previousID (ad : Advertisement) :
    ad.toIpld.linkAt "PreviousID" = ad.previousID.bind Ipld.asLink := by
  rw [Ipld.linkAt, get_previousID]

/-- The newest entry chunk the stored object links to. -/
@[simp] theorem linkAt_entries (ad : Advertisement) :
    ad.toIpld.linkAt "Entries" = ad.entries.bind Ipld.asLink := by
  rw [Ipld.linkAt, get_entries]
  cases ad.entries <;> rfl

end Advertisement

/-! ## Entry chunks -/

/-- A chunk in a chain of entries that together hold the advertised multihashes. -/
structure EntryChunk where
  entries : List Ipld
  /-- An optional link to the next entry chunk. -/
  next : Option Ipld

namespace EntryChunk

def new (entries : List Ipld) (next : Option Ipld) : EntryChunk := { entries, next }

/-- The object `put_obj` stores for a chunk. -/
def toIpld (chunk : EntryChunk) : Ipld :=
  .map ([("Entries", .list chunk.entries)] ++ (chunk.next.map fun n => ("Next", n)).toList)

@[simp] theorem linkAt_next (chunk : EntryChunk) :
    chunk.toIpld.linkAt "Next" = chunk.next.bind Ipld.asLink := by
  cases h : chunk.next <;> simp [Ipld.linkAt, Ipld.get, toIpld, h, List.lookup_cons]

/-- The derived `Deserialize`. -/
def ofIpld (o : Ipld) : Option EntryChunk :=
  match o.get "Entries" with
  | some (.list entries) => some { entries, next := Advertisement.optional (o.get "Next") }
  | _ => none

/-- A reader gets the entries that were written. -/
theorem ofIpld_toIpld (chunk : EntryChunk) :
    ofIpld chunk.toIpld = some { chunk with next := Advertisement.optional chunk.next } := by
  cases next : chunk.next <;> simp [ofIpld, toIpld, next, Ipld.get, List.lookup_cons]

end EntryChunk

end Ursa.IndexProvider

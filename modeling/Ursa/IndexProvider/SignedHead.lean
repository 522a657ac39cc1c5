/-
# IndexProvider.SignedHead — the head of the chain, signed, as JSON

`ursa-index-provider/src/signed_head.rs`.  A `SignedHead` is a record of a link and two byte
strings.  Its JSON has the field names of the record; the link is `{"/": text}` and bytes are
`{"/": {"bytes": base64}}`.

* `ofObject_ok_iff` — which objects are read, and as what: each field is there once, in any
  order, and is read from its map.
* `ofJson_toJson` — deserialising undoes serialising.
* `signed_head_round_trip` — what was signed opens, after a trip through its text.
-/
import Ursa.IndexProvider.Provider
import Ursa.Theory.Base64
import Ursa.Theory.Json
import Ursa.Theory.Varint

namespace Ursa.IndexProvider

set_option autoImplicit false

open Ursa.Theory

/-! ## Signing and opening -/

/-- What the code uses of `libp2p`'s identities, and the text of a CID. -/
structure HeadLib (Keypair PublicKey : Type) where
  /-- The error is the text of a `SigningError`. -/
  sign : Keypair → Bytes → Except String Bytes
  /-- `Keypair::public` -/
  publicKey : Keypair → PublicKey
  toProtobufEncoding : PublicKey → Bytes
  fromProtobufEncoding : Bytes → Option PublicKey
  verify : PublicKey → Bytes → Bytes → Bool
  /-- `Cid::to_string` -/
  cidToString : Cid → String
  /-- `Cid::try_from` -/
  cidTryFrom : String → Except String Cid

/-- A signature is accepted over what was signed; public keys and CIDs are read back from
their encodings. -/
structure HeadLib.Lawful {K P : Type} (lib : HeadLib K P) : Prop where
  verify_sign : ∀ key message sig, lib.sign key message = .ok sig →
    lib.verify (lib.publicKey key) message sig = true
  protobuf : ∀ pk, lib.fromProtobufEncoding (lib.toProtobufEncoding pk) = some pk
  text : ∀ cid, lib.cidTryFrom (lib.cidToString cid) = .ok cid

structure SignedHead where
  head : Cid
  sig : Bytes
  pubkey : Bytes
  deriving DecidableEq, Repr

inductive SignedHeadError where
  /-- "Invalid signature" -/
  | invalidSignature
  /-- "Invalid public key" -/
  | invalidPublicKey
  deriving DecidableEq, Repr

variable {K P : Type} (lib : HeadLib K P)

def SignedHead.new (signingKey : K) (cid : Cid) : Except String SignedHead := do
  let sig ← lib.sign signingKey cid.toBytes
  return { head := cid, pubkey := lib.toProtobufEncoding (lib.publicKey signingKey), sig }

def SignedHead.open (h : SignedHead) : Except SignedHeadError (P × Cid) :=
  match lib.fromProtobufEncoding h.pubkey with
  | none => .error .invalidPublicKey
  | some pk =>
      if lib.verify pk h.head.toBytes h.sig then .ok (pk, h.head) else .error .invalidSignature

/-! ## The two maps -/

/-- Why a text is no `SignedHead`. -/
inductive ReadError where
  /-- "Missing link key" -/
  | missingLinkKey
  /-- "Missing bytes key" -/
  | missingBytesKey
  /-- "missing bytes string" -/
  | missingBytesString
  | base64
  /-- "Cid entry is missing" -/
  | cidEntryMissing
  /-- "Cid str is missing" -/
  | cidStrMissing
  | cid (reason : String)
  | invalidType
  | invalidLength (length : Nat)
  | missingField (name : String)
  | duplicateField (name : String)
  | trailing
  | notJson
  deriving DecidableEq, Repr

/-- `serde_json::Map`: of two members with one key, the later one counts. -/
abbrev Map := List (String × Json.Value)

def Map.get (key : String) (map : Map) : Option Json.Value := map.reverse.lookup key

/-- `Value::get` with a key. -/
def valueGet (key : String) : Json.Value → Option Json.Value
  | .object map => Map.get key map
  | _ => none

def asStr : Json.Value → Option String
  | .string s => some s
  | _ => none

/-- `Option::ok_or` -/
def okOr {α : Type} (e : ReadError) : Option α → Except ReadError α
  | some a => .ok a
  | none => .error e

/-- The map of bytes with this base64 text. -/
def bytesMap (text : List Char) : Map :=
  [("/", .object [("bytes", .string (String.ofList text))])]

def fromBytesToMap (bytes : Bytes) : Map := bytesMap (Base64.encode bytes)

def fromMapToBytes (value : Map) : Except ReadError Bytes := do
  let link ← okOr .missingLinkKey (Map.get "/" value)
  let bytes ← okOr .missingBytesKey (valueGet "bytes" link)
  let bytesStr ← okOr .missingBytesString (asStr bytes)
  okOr .base64 (Base64.decodeLoose bytesStr.toList)

def fromCidToMap (cid : Cid) : Map := [("/", .string (lib.cidToString cid))]

def fromMapToCid (value : Map) : Except ReadError Cid := do
  let link ← okOr .cidEntryMissing (Map.get "/" value)
  let cidStr ← okOr .cidStrMissing (asStr link)
  match lib.cidTryFrom cidStr with
  | .ok cid => .ok cid
  | .error reason => .error (.cid reason)

/-! ## The record -/

def asMap : Json.Value → Except ReadError Map
  | .object map => .ok map
  | _ => .error .invalidType

def readCid (v : Json.Value) : Except ReadError Cid := asMap v >>= fromMapToCid lib

def readBytes (v : Json.Value) : Except ReadError Bytes := asMap v >>= fromMapToBytes

def SignedHead.toJson (h : SignedHead) : Json.Value :=
  .object
    [("head", .object (fromCidToMap lib h.head)), ("sig", .object (fromBytesToMap h.sig)),
      ("pubkey", .object (fromBytesToMap h.pubkey))]

/-- The fields that have been read. -/
structure Fields where
  head : Option Cid
  sig : Option Bytes
  pubkey : Option Bytes

/-- A field is set once. -/
def setOnce {α : Type} (key : String) (field : Option α) (value : Except ReadError α) :
    Except ReadError (Option α) :=
  match field with
  | some _ => .error (.duplicateField key)
  | none => value.map some

/-- One member of the object; members with other names are skipped. -/
def Fields.visit (fields : Fields) (m : String × Json.Value) : Except ReadError Fields :=
  if m.1 = "head" then do
    return { fields with head := ← setOnce "head" fields.head (readCid lib m.2) }
  else if m.1 = "sig" then do
    return { fields with sig := ← setOnce "sig" fields.sig (readBytes m.2) }
  else if m.1 = "pubkey" then do
    return { fields with pubkey := ← setOnce "pubkey" fields.pubkey (readBytes m.2) }
  else .ok fields

def SignedHead.ofObject (members : List (String × Json.Value)) : Except ReadError SignedHead := do
  let fields ← members.foldlM (Fields.visit lib) ⟨none, none, none⟩
  let head ← okOr (.missingField "head") fields.head
  let sig ← okOr (.missingField "sig") fields.sig
  let pubkey ← okOr (.missingField "pubkey") fields.pubkey
  return { head, sig, pubkey }

/-- The derived reader takes the fields of an array in order. -/
def SignedHead.ofArray (items : List Json.Value) : Except ReadError SignedHead := do
  let head ← okOr (.invalidLength 0) items[0]? >>= readCid lib
  let sig ← okOr (.invalidLength 1) items[1]? >>= readBytes
  let pubkey ← okOr (.invalidLength 2) items[2]? >>= readBytes
  if items.length = 3 then return { head, sig, pubkey } else .error .trailing

def SignedHead.ofJson : Json.Value → Except ReadError SignedHead
  | .object members => ofObject lib members
  | .array items => ofArray lib items
  | _ => .error .invalidType

/-- `serde_json::to_string` -/
def SignedHead.toText (h : SignedHead) : String := String.ofList (Json.print (h.toJson lib))

/-- `serde_json::from_str` -/
def SignedHead.ofText (text : String) : Except ReadError SignedHead :=
  match Json.parse text.toList with
  | some v => ofJson lib v
  | none => .error .notJson

/-! ## What is read -/

variable {lib}

/-- What the members with one key make of a field: none leave it as it was, one sets it. -/
def Fills {α : Type} (key : String) (read : Json.Value → Except ReadError α)
    (members : List (String × Json.Value)) (before after : Option α) : Prop :=
  (members.filter (·.1 = key) = [] ∧ after = before) ∨
    before = none ∧ ∃ v a, members.filter (·.1 = key) = [(key, v)] ∧ read v = .ok a ∧ after = some a

section Fills

variable {α : Type} {key : String} {read : Json.Value → Except ReadError α}
variable {m : String × Json.Value} {members : List (String × Json.Value)} {before after : Option α}

theorem fills_nil : Fills key read [] before after ↔ after = before := by
  simp [Fills]

theorem fills_cons_other (other : m.1 ≠ key) :
    Fills key read (m :: members) before after ↔ Fills key read members before after := by
  simp [Fills, other]

theorem fills_cons_self (own : m.1 = key) :
    Fills key read (m :: members) before after ↔
      ∃ now, setOnce key before (read m.2) = .ok now ∧ Fills key read members now after := by
  obtain ⟨name, v⟩ := m
  obtain rfl : name = key := own
  cases before with
  | some a => simp [Fills, setOnce]
  | none =>
      cases value : read v with
      | error e => simp [Fills, setOnce, value, Except.map]
      | ok a => simp [Fills, setOnce, value, Except.map]

end Fills

theorem visit_fold_ok_iff (members : List (String × Json.Value)) (fields fields' : Fields) :
    members.foldlM (Fields.visit lib) fields = .ok fields' ↔
      Fills "head" (readCid lib) members fields.head fields'.head ∧
        Fills "sig" readBytes members fields.sig fields'.sig ∧
        Fills "pubkey" readBytes members fields.pubkey fields'.pubkey := by
  induction members generalizing fields with
  | nil =>
      obtain ⟨head, sig, pubkey⟩ := fields
      obtain ⟨head', sig', pubkey'⟩ := fields'
      simp [fills_nil, pure, Except.pure, eq_comm]
  | cons m members ih =>
      simp only [List.foldlM_cons, Fields.visit]
      by_cases isHead : m.1 = "head"
      · rw [fills_cons_self isHead, fills_cons_other (by simp [isHead]),
          fills_cons_other (by simp [isHead])]
        cases setOnce "head" fields.head (readCid lib m.2) with
        | error e => simp [isHead, bind, Except.bind]
        | ok now =>
            simpa [isHead, bind, Except.bind, pure, Except.pure] using ih { fields with head := now }
      by_cases isSig : m.1 = "sig"
      · rw [fills_cons_other isHead, fills_cons_self isSig, fills_cons_other (by simp [isSig])]
        cases setOnce "sig" fields.sig (readBytes m.2) with
        | error e => simp [isSig, bind, Except.bind]
        | ok now =>
            simpa [isSig, bind, Except.bind, pure, Except.pure] using ih { fields with sig := now }
      by_cases isPubkey : m.1 = "pubkey"
      · rw [fills_cons_other isHead, fills_cons_other isSig, fills_cons_self isPubkey]
        cases setOnce "pubkey" fields.pubkey (readBytes m.2) with
        | error e => simp [isPubkey, bind, Except.bind]
        | ok now =>
            simpa [isPubkey, bind, Except.bind, pure, Except.pure] using ih { fields with pubkey := now }
      · rw [fills_cons_other isHead, fills_cons_other isSig, fills_cons_other isPubkey, ← ih]
        simp [isHead, isSig, isPubkey, bind, Except.bind]

/-- A field of an object: there once, and read as `a`. -/
def HasField {α : Type} (key : String) (read : Json.Value → Except ReadError α)
    (members : List (String × Json.Value)) (a : α) : Prop :=
  ∃ v, members.filter (·.1 = key) = [(key, v)] ∧ read v = .ok a

theorem fills_some_iff {α : Type} {key : String} {read : Json.Value → Except ReadError α}
    {members : List (String × Json.Value)} {a : α} :
    Fills key read members none (some a) ↔ HasField key read members a := by
  constructor
  · rintro (⟨-, absurd⟩ | ⟨-, v, b, only, value, same⟩)
    · cases absurd
    · obtain rfl := Option.some.inj same
      exact ⟨v, only, value⟩
  · rintro ⟨v, only, value⟩
    exact .inr ⟨rfl, v, a, only, value, rfl⟩

/-- **Which objects are read.**  Those that have each field once, in whatever order and among
whatever else, and each field's value is a map that its reader takes. -/
theorem ofObject_ok_iff {members : List (String × Json.Value)} {h : SignedHead} :
    SignedHead.ofObject lib members = .ok h ↔
      HasField "head" (readCid lib) members h.head ∧ HasField "sig" readBytes members h.sig ∧
        HasField "pubkey" readBytes members h.pubkey := by
  simp only [← fills_some_iff]
  constructor
  · intro read
    unfold SignedHead.ofObject at read
    cases folded : members.foldlM (Fields.visit lib) ⟨none, none, none⟩ with
    | error e => simp [folded, bind, Except.bind] at read
    | ok fields =>
        obtain ⟨head, sig, pubkey⟩ := fields
        cases head <;> cases sig <;> cases pubkey <;>
          simp [folded, okOr, bind, Except.bind, pure, Except.pure] at read
        subst read
        exact (visit_fold_ok_iff members _ _).mp folded
  · intro fills
    have folded := (visit_fold_ok_iff members ⟨none, none, none⟩
      ⟨some h.head, some h.sig, some h.pubkey⟩).mpr fills
    simp [SignedHead.ofObject, folded, okOr, bind, Except.bind, pure, Except.pure]

/-! ## Round trips -/

/-- Bytes are read from their base64 text, whatever part of the padding it has. -/
theorem readBytes_padded (bytes : Bytes) {n : Nat}
    (few : n ≤ Base64.lacking (Base64.digits bytes).length) :
    readBytes (.object (bytesMap (Base64.digits bytes ++ List.replicate n '='))) = .ok bytes := by
  simp [readBytes, asMap, fromMapToBytes, bytesMap, Map.get, valueGet, asStr, okOr,
    Base64.decodeLoose_digits bytes few, bind, Except.bind]

theorem readBytes_fromBytesToMap (bytes : Bytes) :
    readBytes (.object (fromBytesToMap bytes)) = .ok bytes :=
  readBytes_padded bytes (Nat.le_refl _)

theorem readCid_fromCidToMap (lawful : lib.Lawful) (cid : Cid) :
    readCid lib (.object (fromCidToMap lib cid)) = .ok cid := by
  simp [readCid, asMap, fromMapToCid, fromCidToMap, Map.get, asStr, okOr, lawful.text, bind,
    Except.bind]

theorem ofJson_toJson (lawful : lib.Lawful) (h : SignedHead) :
    SignedHead.ofJson lib (h.toJson lib) = .ok h := by
  refine ofObject_ok_iff.mpr ⟨⟨_, rfl, ?_⟩, ⟨_, rfl, ?_⟩, ⟨_, rfl, ?_⟩⟩
  · exact readCid_fromCidToMap lawful h.head
  · exact readBytes_fromBytesToMap h.sig
  · exact readBytes_fromBytesToMap h.pubkey

theorem ofText_toText (lawful : lib.Lawful) (h : SignedHead) :
    SignedHead.ofText lib (h.toText lib) = .ok h := by
  simp [SignedHead.ofText, SignedHead.toText, Json.parse_print, ofJson_toJson lawful]

/-- What `new` makes opens. -/
theorem open_new (lawful : lib.Lawful) {key : K} {cid : Cid} {sig : Bytes}
    (signed : lib.sign key cid.toBytes = .ok sig) :
    ∃ h, SignedHead.new lib key cid = .ok h ∧ h.open lib = .ok (lib.publicKey key, cid) := by
  refine ⟨⟨cid, sig, lib.toProtobufEncoding (lib.publicKey key)⟩, ?_, ?_⟩
  · simp [SignedHead.new, signed, bind, Except.bind, pure, Except.pure]
  · simp [SignedHead.open, lawful.protobuf, lawful.verify_sign key _ _ signed]

theorem new_ok {key : K} {cid : Cid} {h : SignedHead} (made : SignedHead.new lib key cid = .ok h) :
    ∃ sig, lib.sign key cid.toBytes = .ok sig := by
  cases signed : lib.sign key cid.toBytes with
  | ok sig => exact ⟨sig, rfl⟩
  | error e => simp [SignedHead.new, signed, bind, Except.bind] at made

/-- As another implementation may write it: the fields in another order, the base64 texts
with `m` and `n` characters of padding. -/
def SignedHead.toForeignJson (lib : HeadLib K P) (h : SignedHead) (m n : Nat) : Json.Value :=
  .object
    [("head", .object (fromCidToMap lib h.head)),
      ("pubkey", .object (bytesMap (Base64.digits h.pubkey ++ List.replicate m '='))),
      ("sig", .object (bytesMap (Base64.digits h.sig ++ List.replicate n '=')))]

theorem ofJson_toForeignJson (lawful : lib.Lawful) (h : SignedHead) {m n : Nat}
    (few : m ≤ Base64.lacking (Base64.digits h.pubkey).length)
    (few' : n ≤ Base64.lacking (Base64.digits h.sig).length) :
    SignedHead.ofJson lib (h.toForeignJson lib m n) = .ok h := by
  refine ofObject_ok_iff.mpr ⟨⟨_, rfl, ?_⟩, ⟨_, rfl, ?_⟩, ⟨_, rfl, ?_⟩⟩
  · exact readCid_fromCidToMap lawful h.head
  · exact readBytes_padded h.sig few'
  · exact readBytes_padded h.pubkey few

/-- **The round trip of a signed head.**  What `new` signs opens after a trip through its JSON
text, to the signer's key and the CID; deserialising undoes serialising, for every record and
for every value that can be read, with its base64 padding, a part of it or none. -/
theorem signed_head_round_trip (lib : HeadLib K P) (lawful : lib.Lawful) :
    (∀ key cid sig, lib.sign key cid.toBytes = .ok sig →
      ∃ h h', SignedHead.new lib key cid = .ok h ∧ SignedHead.ofText lib (h.toText lib) = .ok h' ∧
        h'.open lib = .ok (lib.publicKey key, cid)) ∧
    (∀ h, SignedHead.ofText lib (h.toText lib) = .ok h) ∧
    (∀ text h, SignedHead.ofText lib text = .ok h →
      SignedHead.ofText lib (h.toText lib) = .ok h) ∧
    (∀ v h, SignedHead.ofJson lib v = .ok h → SignedHead.ofJson lib (h.toJson lib) = .ok h) ∧
    ∀ h m n, m ≤ Base64.lacking (Base64.digits h.pubkey).length →
      n ≤ Base64.lacking (Base64.digits h.sig).length →
      SignedHead.ofJson lib (h.toForeignJson lib m n) = .ok h := by
  refine ⟨?_, ofText_toText lawful, fun _ h _ => ofText_toText lawful h,
    fun _ h _ => ofJson_toJson lawful h, fun h m n => ofJson_toForeignJson lawful h⟩
  intro key cid sig signed
  obtain ⟨h, made, opens⟩ := open_new lawful signed
  exact ⟨h, h, made, ofText_toText lawful h, opens⟩

/-- Signatures that keep the key and the message; keys as `Ed25519` keys, CIDs as base64
texts. -/
def plainHeadLib : HeadLib Bytes Bytes where
  sign key message := .ok (key ++ message)
  publicKey key := key
  toProtobufEncoding pk := 8 :: 1 :: 18 :: Varint.frame pk
  fromProtobufEncoding
    | 8 :: 1 :: 18 :: rest =>
        match Varint.readFrame rest with
        | some (pk, []) => some pk
        | _ => none
    | _ => none
  verify pk message sig := sig = pk ++ message
  cidToString cid := String.ofList ('m' :: Base64.digits cid.bytes)
  cidTryFrom text :=
    match text.toList with
    | 'm' :: digits =>
        match Base64.ofDigits digits with
        | some bytes => .ok ⟨bytes⟩
        | none => .error "Failed to parse multihash"
    | _ => .error "Invalid character"

theorem plainHeadLib_lawful : plainHeadLib.Lawful where
  verify_sign key message sig signed := by
    cases signed
    simp [plainHeadLib]
  protobuf pk := by
    have read := Varint.readFrame_frame pk []
    rw [List.append_nil] at read
    simp [plainHeadLib, read]
  text cid := by simp [plainHeadLib, Base64.ofDigits_digits]

theorem signed_head_round_trip_sample :
    ∃ h h', SignedHead.new plainHeadLib [7] ⟨[1, 113, 0, 0]⟩ = .ok h ∧
      SignedHead.ofText plainHeadLib (h.toText plainHeadLib) = .ok h' ∧
      h'.open plainHeadLib = .ok ([7], ⟨[1, 113, 0, 0]⟩) :=
  (signed_head_round_trip plainHeadLib plainHeadLib_lawful).1 [7] ⟨[1, 113, 0, 0]⟩ _ rfl

/-! ## What the provider serves -/

/-- The `head` handler. -/
def headHandler (lib : HeadLib K P) (p : Provider K) (s : Shared) :
    Except ProviderError SignedHead :=
  match s.head with
  | some head =>
      match SignedHead.new lib p.keypair head with
      | .ok signedHead => .ok signedHead
      | .error e => .error (.internalError e)
  | none => .error (.notFoundError "No head found")

/-- What is served opens, where it was read, to the provider's key and the current head. -/
theorem served_head_opens (lawful : lib.Lawful) {p : Provider K} {s : Shared} {h : SignedHead}
    (served : headHandler lib p s = .ok h) :
    ∃ head h', s.head = some head ∧ SignedHead.ofText lib (h.toText lib) = .ok h' ∧
      h'.open lib = .ok (lib.publicKey p.keypair, head) := by
  cases current : s.head with
  | none => simp [headHandler, current] at served
  | some head =>
      cases made : SignedHead.new lib p.keypair head with
      | error e => simp [headHandler, current, made] at served
      | ok signedHead =>
          obtain rfl : signedHead = h := by simpa [headHandler, current, made] using served
          obtain ⟨sig, signed⟩ := new_ok made
          obtain ⟨h', made', opens⟩ := open_new lawful signed
          obtain rfl := Except.ok.inj (made.symm.trans made')
          exact ⟨head, _, rfl, ofText_toText lawful _, opens⟩

end Ursa.IndexProvider

/-
# Network.Codec — requests and responses on the wire

`ursa-network/src/codec/protocol.rs`.  A message is written as its JSON text behind a
length, and read back the same way.  The limit is on the JSON text: a character that is
escaped takes up to six bytes of it, a data byte up to four.

* JSON is serde's: an enum is an object with the variant's name as its one key, a
  newtype is its content, bytes are an array of numbers (`toJson`, `ofJson`).  A reader
  passes over fields it does not know and takes a record also from an array.
* `read_length_prefixed`, `write_length_prefixed` and `serde_json::from_str` are
  third-party code (`CodecLib`).  `CodecLib.Lawful` is what messages that are written and
  read back rely on, `CodecLib.Reads` what becomes of any stream.
* A text that is not UTF-8, not JSON or not a message panics in the reader.  Before it, a
  bad length or a frame that is cut off is an error, but for two kinds of length that are
  not what they seem (`Misread`); see `malformed_bytes_are_errors_iff`.

A stream takes everything that is written to it, and nothing but its end stops a reader.
-/
import Ursa.Theory.Json
import Ursa.Theory.Varint
import Ursa.Theory.Outcome
import Ursa.Network.Behaviour
import Ursa.DagCbor

namespace Ursa.Network

set_option autoImplicit false

open Ursa.Theory

def maxRequestSize : Nat := 4 * 1024 * 1024

def maxResponseSize : Nat := 10 * 1024 * 1024

/-! ## JSON -/

namespace Codec

def stringOf : Json.Value → Option String
  | .string s => some s
  | _ => none

def u8Of : Json.Value → Option UInt8
  | .number ⟨false, n, [], none⟩ => if n < 256 then some (UInt8.ofNat n) else none
  | _ => none

def bytesOf : Json.Value → Option Bytes
  | .array items => items.mapM u8Of
  | _ => none

def ofBytes (data : Bytes) : Json.Value := .array (data.map fun b => .natural b.toNat)

end Codec

open Codec

def RequestType.toJson : RequestType → Json.Value
  | .carRequest cid => .object [("CarRequest", .string cid)]

def RequestType.ofJson : Json.Value → Option RequestType
  | .object [(variant, content)] =>
      if variant = "CarRequest" then (stringOf content).map .carRequest else none
  | _ => none

def UrsaExchangeRequest.toJson (r : UrsaExchangeRequest) : Json.Value := r.request.toJson

def UrsaExchangeRequest.ofJson (v : Json.Value) : Option UrsaExchangeRequest :=
  (RequestType.ofJson v).map .mk

def CarResponse.toJson (r : CarResponse) : Json.Value :=
  .object [("cid", .string r.cid), ("data", ofBytes r.data)]

def CarResponse.ofFields (cid data : Json.Value) : Option CarResponse :=
  match stringOf cid, bytesOf data with
  | some cid, some data => some { cid, data }
  | _, _ => none

def CarResponse.ofJson : Json.Value → Option CarResponse
  | .object members =>
      -- a field that is missing, or is there twice, is an error
      match members.filter (fun m => m.1 = "cid"), members.filter (fun m => m.1 = "data") with
      | [cid], [data] => CarResponse.ofFields cid.2 data.2
      | _, _ => none
  | .array [cid, data] => CarResponse.ofFields cid data
  | _ => none

def ResponseType.toJson : ResponseType → Json.Value
  | .carResponse response => .object [("CarResponse", response.toJson)]

def ResponseType.ofJson : Json.Value → Option ResponseType
  | .object [(variant, content)] =>
      if variant = "CarResponse" then (CarResponse.ofJson content).map .carResponse else none
  | _ => none

def UrsaExchangeResponse.toJson (r : UrsaExchangeResponse) : Json.Value := r.response.toJson

def UrsaExchangeResponse.ofJson (v : Json.Value) : Option UrsaExchangeResponse :=
  (ResponseType.ofJson v).map .mk

/-! ## Framing -/

inductive IoError where
  | unexpectedEof
  /-- "overflow in variable-length integer" -/
  | overflow
  /-- "Received data size (.. bytes) exceeds maximum (.. bytes)" -/
  | tooLong (len maxSize : Nat)
  deriving DecidableEq, Repr

/-- The writing half of a substream. -/
structure Stream where
  written : Bytes
  closed : Bool
  deriving DecidableEq

def Stream.new : Stream := { written := [], closed := false }

/-- What the code uses of `libp2p::core::upgrade` and of `serde_json`. -/
structure CodecLib where
  /-- What `write_length_prefixed` writes. -/
  frame : Bytes → Bytes
  /-- `read_length_prefixed` -/
  readLengthPrefixed : Bytes → Nat → Outcome IoError Bytes
  /-- `from_str::<UrsaExchangeRequest>` -/
  requestFromStr : String → Option UrsaExchangeRequest
  /-- `from_str::<UrsaExchangeResponse>` -/
  responseFromStr : String → Option UrsaExchangeResponse

/-- Frames are lengths and data, and are read up to the limit.  What is read of a JSON text
is what it says; nothing is said of a text that `Json.parse` refuses, because `from_str`
passes over halves of surrogate pairs in fields it does not know. -/
structure CodecLib.Lawful (lib : CodecLib) : Prop where
  frame_eq : ∀ data, data.length < 2 ^ 64 → lib.frame data = Varint.frame data
  reads : ∀ data rest maxSize, maxSize < 2 ^ 64 → data.length ≤ maxSize →
    lib.readLengthPrefixed (lib.frame data ++ rest) maxSize = .ok data
  refuses : ∀ data rest maxSize, maxSize < data.length →
    (lib.readLengthPrefixed (lib.frame data ++ rest) maxSize).IsErr
  requestFromStr : ∀ text v, Json.parse text.toList = some v →
    lib.requestFromStr text = UrsaExchangeRequest.ofJson v
  responseFromStr : ∀ text v, Json.parse text.toList = some v →
    lib.responseFromStr text = UrsaExchangeResponse.ofJson v

/-! ## Messages -/

namespace Codec

/-- `serde_json::to_vec` -/
def toVec (v : Json.Value) : Bytes := DagCbor.utf8 (String.ofList (Json.print v))

def writeMessage (lib : CodecLib) (io : Stream) (v : Json.Value) : Outcome IoError Unit × Stream :=
  (.ok (), { written := io.written ++ lib.frame (toVec v), closed := true })

/-- What both readers do, each with its limit and its type. -/
def readMessage {α : Type} (lib : CodecLib) (maxSize : Nat) (fromStr : String → Option α)
    (io : Bytes) : Outcome IoError α :=
  match lib.readLengthPrefixed io maxSize with
  | .err e => .err e
  | .panic m => .panic m
  | .diverge => .diverge
  | .ok vec =>
      if vec = [] then .err .unexpectedEof
      else
        match DagCbor.ofUtf8 vec with
        | none => .panic "called `Result::unwrap()` on an `Err` value"
        | some text =>
            match fromStr text with
            | none => .panic "called `Result::unwrap()` on an `Err` value"
            | some message => .ok message

end Codec

def readRequest (lib : CodecLib) (io : Bytes) : Outcome IoError UrsaExchangeRequest :=
  readMessage lib maxRequestSize lib.requestFromStr io

def readResponse (lib : CodecLib) (io : Bytes) : Outcome IoError UrsaExchangeResponse :=
  readMessage lib maxResponseSize lib.responseFromStr io

def writeRequest (lib : CodecLib) (io : Stream) (req : UrsaExchangeRequest) :
    Outcome IoError Unit × Stream :=
  writeMessage lib io req.toJson

def writeResponse (lib : CodecLib) (io : Stream) (res : UrsaExchangeResponse) :
    Outcome IoError Unit × Stream :=
  writeMessage lib io res.toJson

/-! ## An executable reader -/

/-- A length as libp2p-core reads it: into ten bytes, one at a time, until they are a varint.
Each of them adds seven bits to 64. -/
def readVarint (io : Bytes) : Outcome IoError (Nat × Bytes) :=
  if io = [] then .ok (0, [])
  else if 10 ≤ (io.takeWhile Varint.continues).length then .err .overflow
  else
    match Varint.decode io with
    | none => .err .unexpectedEof
    | some (n, rest) =>
        if Varint.encode n ++ rest = io then .ok (n % 2 ^ 64, rest)
        -- a varint that is not the shortest counts as one that goes on
        else if io.length < 10 then .err .unexpectedEof
        else .panic "range end index 11 out of range for slice of length 10"

/-- No `usize` holds the length of data that is written behind ten bytes of ones. -/
def plainCodec : CodecLib where
  frame data :=
    if data.length < 2 ^ 64 then Varint.frame data else List.replicate 10 0xff ++ data
  readLengthPrefixed io maxSize :=
    match readVarint io with
    | .err e => .err e
    | .panic m => .panic m
    | .diverge => .diverge
    | .ok (len, rest) =>
        if maxSize < len then .err (.tooLong len maxSize)
        else if rest.length < len then .err .unexpectedEof
        else .ok (rest.take len)
  requestFromStr text := (Json.parse text.toList).bind UrsaExchangeRequest.ofJson
  responseFromStr text := (Json.parse text.toList).bind UrsaExchangeResponse.ofJson

/-- A length that was written is read back. -/
theorem readVarint_encode {n : Nat} (small : n < 2 ^ 64) (rest : Bytes) :
    readVarint (Varint.encode n ++ rest) = .ok (n, rest) := by
  have nonempty : Varint.encode n ++ rest ≠ [] := by simp [Varint.encode_ne_nil]
  have groups : ((Varint.encode n ++ rest).takeWhile Varint.continues).length + 1 =
      (Varint.encode n).length := Varint.length_takeWhile_encodeGroups n n rest
  have short : (Varint.encode n).length ≤ 10 :=
    Varint.length_encodeGroups_le _ _ 10 (by omega) (by omega)
  rw [readVarint, if_neg nonempty, if_neg (by omega), Varint.decode_encode]
  simp only [if_true, Nat.mod_eq_of_lt small]

theorem plainCodec_reads (data rest : Bytes) {maxSize : Nat} (reasonable : maxSize < 2 ^ 64)
    (fits : data.length ≤ maxSize) :
    plainCodec.readLengthPrefixed (plainCodec.frame data ++ rest) maxSize = .ok data := by
  have small : data.length < 2 ^ 64 := by omega
  have whole : ¬ (data ++ rest).length < data.length := by simp
  simp only [plainCodec, if_pos small, Varint.frame, List.append_assoc, readVarint_encode small,
    if_neg (Nat.not_lt_of_le fits), if_neg whole, List.take_left]

theorem plainCodec_refuses (data rest : Bytes) {maxSize : Nat} (exceeds : maxSize < data.length) :
    (plainCodec.readLengthPrefixed (plainCodec.frame data ++ rest) maxSize).IsErr := by
  by_cases small : data.length < 2 ^ 64
  · simp only [plainCodec, if_pos small, Varint.frame, List.append_assoc, readVarint_encode small,
      if_pos exceeds]
    trivial
  · have ones : 10 ≤ ((List.replicate 10 0xff ++ data ++ rest).takeWhile Varint.continues).length := by
      have all : ∀ b ∈ List.replicate 10 (0xff : UInt8), Varint.continues b = true := by
        intro b member
        rw [List.eq_of_mem_replicate member]
        rfl
      rw [List.append_assoc, List.takeWhile_append_of_pos all, List.length_append,
        List.length_replicate]
      omega
    have overflows : readVarint (List.replicate 10 0xff ++ data ++ rest) = .err .overflow := by
      rw [readVarint, if_neg (by simp), if_pos ones]
    simp only [plainCodec, if_neg small, overflows]
    trivial

theorem plainCodec_lawful : plainCodec.Lawful where
  frame_eq data small := if_pos small
  reads data rest _ reasonable fits := plainCodec_reads data rest reasonable fits
  refuses data rest _ exceeds := plainCodec_refuses data rest exceeds
  requestFromStr text v parsed := by simp [plainCodec, parsed]
  responseFromStr text v parsed := by simp [plainCodec, parsed]

/-! ## What is written is read back -/

section RoundTrip

theorem u8Of_natural (b : UInt8) : u8Of (.natural b.toNat) = some b := by
  have small : b.toNat < 256 := b.toNat_lt
  simp [Json.Value.natural, u8Of, small]

theorem bytesOf_ofBytes (data : Bytes) : bytesOf (ofBytes data) = some data := by
  show (data.map fun b => Json.Value.natural b.toNat).mapM u8Of = some data
  induction data with
  | nil => rfl
  | cons b data ih =>
      rw [List.map_cons, List.mapM_cons, ih, u8Of_natural]
      rfl

theorem UrsaExchangeRequest.ofJson_toJson (r : UrsaExchangeRequest) :
    UrsaExchangeRequest.ofJson r.toJson = some r := by
  obtain ⟨⟨cid⟩⟩ := r
  rfl

theorem CarResponse.ofJson_toJson (r : CarResponse) : CarResponse.ofJson r.toJson = some r := by
  have data := bytesOf_ofBytes r.data
  simp [CarResponse.toJson, CarResponse.ofJson, CarResponse.ofFields, stringOf, data]

theorem UrsaExchangeResponse.ofJson_toJson (r : UrsaExchangeResponse) :
    UrsaExchangeResponse.ofJson r.toJson = some r := by
  obtain ⟨⟨response⟩⟩ := r
  have back := CarResponse.ofJson_toJson response
  simp [UrsaExchangeResponse.ofJson, UrsaExchangeResponse.toJson, ResponseType.toJson,
    ResponseType.ofJson, back]

theorem writeMessage_new (lib : CodecLib) (v : Json.Value) :
    writeMessage lib .new v = (.ok (), { written := lib.frame (toVec v), closed := true }) := by
  simp [writeMessage, Stream.new]

theorem toVec_ne_nil (v : Json.Value) : toVec v ≠ [] := by
  intro empty
  have back := DagCbor.ofUtf8_utf8 (String.ofList (Json.print v))
  have nothing : DagCbor.ofUtf8 [] = some "" := DagCbor.ofUtf8_utf8 ""
  obtain ⟨c, tail, shape, -⟩ := Json.print_head v
  rw [show DagCbor.utf8 (String.ofList (Json.print v)) = [] from empty, nothing, shape] at back
  have lists := congrArg String.toList (Option.some.inj back)
  simp at lists

/-- What is not read as a frame is refused. -/
theorem readMessage_refuses {α : Type} {lib : CodecLib} {maxSize : Nat} {io : Bytes}
    (fromStr : String → Option α) (refused : (lib.readLengthPrefixed io maxSize).IsErr ∨
      lib.readLengthPrefixed io maxSize = .ok []) :
    ∃ e, readMessage lib maxSize fromStr io = .err e := by
  rw [readMessage]
  rcases refused with failed | nothing
  · cases ended : lib.readLengthPrefixed io maxSize with
    | err e => exact ⟨e, rfl⟩
    | _ =>
        rw [ended] at failed
        exact failed.elim
  · rw [nothing]
    exact ⟨_, rfl⟩

/-- A message is read back from its bytes, whatever follows, exactly if its text is no
longer than the limit; a longer one is refused. -/
theorem readMessage_frame {α : Type} {lib : CodecLib} (lawful : lib.Lawful)
    {fromStr : String → Option α} {a : α} {v : Json.Value}
    (back : fromStr (String.ofList (Json.print v)) = some a) {maxSize : Nat}
    (reasonable : maxSize < 2 ^ 64) (rest : Bytes) :
    (readMessage lib maxSize fromStr (lib.frame (toVec v) ++ rest) = .ok a ↔
        (toVec v).length ≤ maxSize) ∧
      (maxSize < (toVec v).length →
        (readMessage lib maxSize fromStr (lib.frame (toVec v) ++ rest)).IsErr) := by
  have refused : maxSize < (toVec v).length →
      (readMessage lib maxSize fromStr (lib.frame (toVec v) ++ rest)).IsErr := by
    intro long
    obtain ⟨e, failed⟩ := readMessage_refuses fromStr (.inl (lawful.refuses _ rest maxSize long))
    rw [failed]
    trivial
  refine ⟨⟨?_, ?_⟩, refused⟩
  · intro read
    by_contra long
    have isErr := refused (Nat.lt_of_not_le long)
    rw [read] at isErr
    exact isErr
  · intro short
    have text : DagCbor.ofUtf8 (toVec v) = some (String.ofList (Json.print v)) :=
      DagCbor.ofUtf8_utf8 _
    rw [readMessage, lawful.reads _ _ _ reasonable short]
    simp only [if_neg (toVec_ne_nil _), text, back]

end RoundTrip

/-- What is written of a request is read as the request. -/
theorem CodecLib.Lawful.request_back {lib : CodecLib} (lawful : lib.Lawful)
    (request : UrsaExchangeRequest) :
    lib.requestFromStr (String.ofList (Json.print request.toJson)) = some request := by
  rw [lawful.requestFromStr _ request.toJson (by rw [String.toList_ofList, Json.parse_print])]
  exact UrsaExchangeRequest.ofJson_toJson request

theorem CodecLib.Lawful.response_back {lib : CodecLib} (lawful : lib.Lawful)
    (response : UrsaExchangeResponse) :
    lib.responseFromStr (String.ofList (Json.print response.toJson)) = some response := by
  rw [lawful.responseFromStr _ response.toJson (by rw [String.toList_ofList, Json.parse_print])]
  exact UrsaExchangeResponse.ofJson_toJson response

theorem maxRequestSize_reasonable : maxRequestSize < 2 ^ 64 := by simp [maxRequestSize]

theorem maxResponseSize_reasonable : maxResponseSize < 2 ^ 64 := by simp [maxResponseSize]

/-- **The wire format round-trips up to its limit.**  Writing a message succeeds; the bytes
written, with anything after them, are read as the same message exactly if its JSON text is
no longer than the limit, and as an error if it is longer. -/
theorem messages_round_trip (lib : CodecLib) (lawful : lib.Lawful) :
    (∀ (request : UrsaExchangeRequest) (rest : Bytes), ∃ bytes,
      writeRequest lib .new request = (.ok (), { written := bytes, closed := true }) ∧
      (readRequest lib (bytes ++ rest) = .ok request ↔
        (toVec request.toJson).length ≤ maxRequestSize) ∧
      (maxRequestSize < (toVec request.toJson).length →
        (readRequest lib (bytes ++ rest)).IsErr)) ∧
    ∀ (response : UrsaExchangeResponse) (rest : Bytes), ∃ bytes,
      writeResponse lib .new response = (.ok (), { written := bytes, closed := true }) ∧
      (readResponse lib (bytes ++ rest) = .ok response ↔
        (toVec response.toJson).length ≤ maxResponseSize) ∧
      (maxResponseSize < (toVec response.toJson).length →
        (readResponse lib (bytes ++ rest)).IsErr) := by
  constructor
  · intro request rest
    refine ⟨lib.frame (toVec request.toJson), writeMessage_new lib _, ?_⟩
    exact readMessage_frame lawful (lawful.request_back request) maxRequestSize_reasonable rest
  · intro response rest
    refine ⟨lib.frame (toVec response.toJson), writeMessage_new lib _, ?_⟩
    exact readMessage_frame lawful (lawful.response_back response) maxResponseSize_reasonable rest

/-- A request for the CID `a`. -/
def sampleRequest : UrsaExchangeRequest := ⟨.carRequest "a"⟩

theorem messages_round_trip_sample : ∃ bytes,
    writeRequest plainCodec .new sampleRequest = (.ok (), { written := bytes, closed := true }) ∧
      readRequest plainCodec (bytes ++ [0x00]) = .ok sampleRequest := by
  obtain ⟨bytes, written, read, -⟩ :=
    (messages_round_trip plainCodec plainCodec_lawful).1 sampleRequest [0x00]
  exact ⟨bytes, written, read.mpr (by decide +kernel)⟩

/-! ## What is not a message -/

namespace Codec

/-- The payload is the UTF-8 text of JSON that is read as the message. -/
def Denotes {α : Type} (fromStr : String → Option α) (payload : Bytes) (message : α) : Prop :=
  ∃ text, DagCbor.ofUtf8 payload = some text ∧ fromStr text = some message

/-- The stream starts with a frame of one byte at least and `maxSize` at most. -/
structure Framed (maxSize : Nat) (io payload : Bytes) : Prop where
  starts : ∃ rest, io = Varint.frame payload ++ rest
  nonempty : payload ≠ []
  fits : payload.length ≤ maxSize

/-- The stream starts with a varint of ten bytes at most. -/
structure Prefixed (io : Bytes) (n : Nat) (rest : Bytes) : Prop where
  short : (io.takeWhile Varint.continues).length < 10
  decodes : Varint.decode io = some (n, rest)

/-- Lengths that libp2p-core does not recognise as bad ones. -/
inductive Misread (maxSize : Nat) (io : Bytes) : Prop
  /-- A varint that is not the shortest counts as one that goes on, until there is no room. -/
  | padded (n : Nat) (rest : Bytes) (length : Prefixed io n rest)
      (longer : Varint.encode n ++ rest ≠ io) (overruns : 10 ≤ io.length)
  /-- Of a length that needs more than 64 bits the upper ones are dropped, and what is left is
  the length of a payload. -/
  | truncated (n : Nat) (rest : Bytes) (length : Prefixed io n rest)
      (shortest : Varint.encode n ++ rest = io) (large : 2 ^ 64 ≤ n) (positive : 0 < n % 2 ^ 64)
      (fits : n % 2 ^ 64 ≤ maxSize) (follows : n % 2 ^ 64 ≤ rest.length)

/-- What is asked of a reader on one stream: it accepts only a frame that holds the message,
refuses every stream that is not such a frame, and does not panic. -/
structure Strict {α : Type} (maxSize : Nat) (fromStr : String → Option α)
    (read : Bytes → Outcome IoError α) (io : Bytes) : Prop where
  sound : ∀ message, read io = .ok message →
    ∃ payload, Framed maxSize io payload ∧ Denotes fromStr payload message
  refuses : (∀ payload message, Framed maxSize io payload → ¬ Denotes fromStr payload message) →
    (read io).IsErr
  noPanic : ∀ m, read io ≠ .panic m

end Codec

/-- What `read_length_prefixed` does to a stream that starts with no frame: it fails or takes
it for an empty one, unless it misreads the length. -/
structure CodecLib.Reads (lib : CodecLib) : Prop extends lib.Lawful where
  misreads : ∀ io maxSize, Misread maxSize io →
    (∃ m, lib.readLengthPrefixed io maxSize = .panic m) ∨
      ∃ vec, vec ≠ [] ∧ lib.readLengthPrefixed io maxSize = .ok vec
  otherwise : ∀ io maxSize, maxSize < 2 ^ 64 → (∀ payload, ¬ Framed maxSize io payload) →
    ¬ Misread maxSize io →
      (lib.readLengthPrefixed io maxSize).IsErr ∨ lib.readLengthPrefixed io maxSize = .ok []

namespace Codec

/-- What becomes of a length. -/
theorem readVarint_cases (io : Bytes) :
    (io = [] ∧ readVarint io = .ok (0, [])) ∨ (∃ e, readVarint io = .err e) ∨
      ∃ n rest, Prefixed io n rest ∧
        ((Varint.encode n ++ rest = io ∧ readVarint io = .ok (n % 2 ^ 64, rest)) ∨
          (Varint.encode n ++ rest ≠ io ∧ 10 ≤ io.length ∧ ∃ m, readVarint io = .panic m)) := by
  unfold readVarint
  split
  · rename_i empty
    exact .inl ⟨empty, rfl⟩
  · split
    · exact .inr (.inl ⟨_, rfl⟩)
    · rename_i short
      split
      · exact .inr (.inl ⟨_, rfl⟩)
      · rename_i n rest decodes
        have length : Prefixed io n rest := ⟨Nat.lt_of_not_le short, decodes⟩
        split
        · rename_i shortest
          exact .inr (.inr ⟨n, rest, length, .inl ⟨shortest, rfl⟩⟩)
        · rename_i longer
          split
          · exact .inr (.inl ⟨_, rfl⟩)
          · rename_i overruns
            exact .inr (.inr ⟨n, rest, length, .inr ⟨longer, Nat.le_of_not_lt overruns, _, rfl⟩⟩)

theorem readVarint_of_prefixed {io rest : Bytes} {n : Nat} (length : Prefixed io n rest) :
    (Varint.encode n ++ rest = io → readVarint io = .ok (n % 2 ^ 64, rest)) ∧
      (Varint.encode n ++ rest ≠ io → 10 ≤ io.length → ∃ m, readVarint io = .panic m) := by
  have nonempty : io ≠ [] := by
    rintro rfl
    cases length.decodes
  unfold readVarint
  rw [if_neg nonempty, if_neg (Nat.not_le_of_lt length.short), length.decodes]
  constructor
  · intro shortest
    simp only [if_pos shortest]
  · intro longer overruns
    simp only [if_neg longer, if_neg (Nat.not_lt_of_le overruns)]
    exact ⟨_, rfl⟩

theorem plainCodec_misreads {io : Bytes} {maxSize : Nat} (misread : Misread maxSize io) :
    (∃ m, plainCodec.readLengthPrefixed io maxSize = .panic m) ∨
      ∃ vec, vec ≠ [] ∧ plainCodec.readLengthPrefixed io maxSize = .ok vec := by
  cases misread with
  | padded n rest length longer overruns =>
      obtain ⟨m, panics⟩ := (readVarint_of_prefixed length).2 longer overruns
      exact .inl ⟨m, by simp only [plainCodec, panics]⟩
  | truncated n rest length shortest large positive fits follows =>
      have read := (readVarint_of_prefixed length).1 shortest
      refine .inr ⟨rest.take (n % 2 ^ 64), ?_, ?_⟩
      · rw [Ne, ← List.length_eq_zero_iff, List.length_take]
        omega
      · simp only [plainCodec, read, if_neg (Nat.not_lt_of_le fits), if_neg (Nat.not_lt_of_le follows)]

theorem plainCodec_otherwise {io : Bytes} {maxSize : Nat}
    (unframed : ∀ payload, ¬ Framed maxSize io payload) (wellRead : ¬ Misread maxSize io) :
    (plainCodec.readLengthPrefixed io maxSize).IsErr ∨
      plainCodec.readLengthPrefixed io maxSize = .ok [] := by
  rcases readVarint_cases io with ⟨-, read⟩ | ⟨e, read⟩ | ⟨n, rest, length, cases'⟩
  · exact .inr (by simp [plainCodec, read])
  · simp only [plainCodec, read]
    exact .inl trivial
  · rcases cases' with ⟨shortest, read⟩ | ⟨longer, overruns, -⟩
    · simp only [plainCodec, read]
      split
      · exact .inl trivial
      · rename_i fits
        split
        · exact .inl trivial
        · rename_i follows
          by_cases empty : n % 2 ^ 64 = 0
          · exact .inr (by rw [empty, List.take_zero])
          · by_cases large : 2 ^ 64 ≤ n
            · exact absurd (.truncated n rest length shortest large (by omega) (by omega) (by omega))
                wellRead
            · -- a shortest varint below the limit, with its payload behind it, is a frame
              refine absurd ?_ (unframed (rest.take n))
              rw [Nat.mod_eq_of_lt (by omega)] at fits follows empty
              have own : (rest.take n).length = n := by
                rw [List.length_take]
                omega
              refine ⟨⟨rest.drop n, ?_⟩, ?_, by omega⟩
              · rw [Varint.frame, own, List.append_assoc, List.take_append_drop, shortest]
              · rw [Ne, ← List.length_eq_zero_iff, own]
                exact empty
    · exact absurd (.padded n rest length longer overruns) wellRead

end Codec

theorem plainCodec_readsStreams : plainCodec.Reads where
  toLawful := plainCodec_lawful
  misreads _ _ misread := plainCodec_misreads misread
  otherwise _ _ _ unframed wellRead := plainCodec_otherwise unframed wellRead

namespace Codec

section Readers

variable {α : Type} {lib : CodecLib} {maxSize : Nat} {fromStr : String → Option α} {io : Bytes}

theorem Framed.read (lawful : lib.Lawful) {payload : Bytes} (framed : Framed maxSize io payload)
    (reasonable : maxSize < 2 ^ 64) : lib.readLengthPrefixed io maxSize = .ok payload := by
  obtain ⟨rest, rfl⟩ := framed.starts
  rw [← lawful.frame_eq payload (Nat.lt_of_le_of_lt framed.fits reasonable)]
  exact lawful.reads payload rest maxSize reasonable framed.fits

/-- The length of a frame is not misread. -/
theorem Framed.not_misread {payload : Bytes} (framed : Framed maxSize io payload)
    (reasonable : maxSize < 2 ^ 64) : ¬ Misread maxSize io := by
  obtain ⟨rest, shape⟩ := framed.starts
  have fits := framed.fits
  rw [Varint.frame, List.append_assoc] at shape
  have own : ∀ n after, Prefixed io n after → payload.length = n ∧ payload ++ rest = after := by
    intro n after length
    have decodes := length.decodes
    rw [shape, Varint.decode_encode] at decodes
    simpa using decodes
  intro misread
  cases misread with
  | padded n after length longer overruns =>
      obtain ⟨rfl, rfl⟩ := own n after length
      exact longer shape.symm
  | truncated n after length shortest large positive fits' follows =>
      obtain ⟨rfl, rfl⟩ := own n after length
      omega

/-- What a reader does to the text of a frame. -/
theorem readMessage_of_read {vec : Bytes} (read : lib.readLengthPrefixed io maxSize = .ok vec)
    (nonempty : vec ≠ []) :
    (∃ message, Denotes fromStr vec message ∧ readMessage lib maxSize fromStr io = .ok message) ∨
      ((∀ message, ¬ Denotes fromStr vec message) ∧
        ∃ m, readMessage lib maxSize fromStr io = .panic m) := by
  rw [readMessage, read]
  simp only [if_neg nonempty]
  cases isText : DagCbor.ofUtf8 vec with
  | none =>
      refine .inr ⟨?_, _, rfl⟩
      rintro message ⟨text, isText', -⟩
      cases isText.symm.trans isText'
  | some text =>
      dsimp only
      cases holds : fromStr text with
      | none =>
          refine .inr ⟨?_, _, rfl⟩
          rintro message ⟨text', isText', holds'⟩
          obtain rfl := Option.some.inj (isText.symm.trans isText')
          cases holds.symm.trans holds'
      | some message => exact .inl ⟨message, ⟨text, isText, holds⟩, rfl⟩

theorem strict_of_err {e : IoError} (refused : readMessage lib maxSize fromStr io = .err e) :
    Strict maxSize fromStr (readMessage lib maxSize fromStr) io where
  sound message read := by simp [refused] at read
  refuses _ := by
    rw [refused]
    trivial
  noPanic m panics := by simp [refused] at panics

theorem strict_of_denotes {payload : Bytes} {message : α} (framed : Framed maxSize io payload)
    (denotes : Denotes fromStr payload message)
    (read : readMessage lib maxSize fromStr io = .ok message) :
    Strict maxSize fromStr (readMessage lib maxSize fromStr) io where
  sound message' read' := by
    obtain rfl := Outcome.ok.inj (read.symm.trans read')
    exact ⟨payload, framed, denotes⟩
  refuses none := absurd denotes (none payload message framed)
  noPanic m panics := by simp [read] at panics

/-- A reader is strict on a stream exactly if a frame it starts with holds a message, and its
length is not misread. -/
theorem strict_iff (reads : lib.Reads) (reasonable : maxSize < 2 ^ 64) :
    Strict maxSize fromStr (readMessage lib maxSize fromStr) io ↔
      (∀ payload, Framed maxSize io payload → ∃ message, Denotes fromStr payload message) ∧
        ¬ Misread maxSize io := by
  constructor
  · intro strict
    constructor
    · intro payload framed
      rcases readMessage_of_read (framed.read reads.toLawful reasonable) framed.nonempty with
        ⟨message, denotes, -⟩ | ⟨-, m, panics⟩
      · exact ⟨message, denotes⟩
      · exact absurd panics (strict.noPanic m)
    · intro misread
      rcases reads.misreads io maxSize misread with ⟨m, overruns⟩ | ⟨vec, nonempty, taken⟩
      · exact strict.noPanic m (by simp only [readMessage, overruns])
      · rcases readMessage_of_read taken nonempty with ⟨message, -, read⟩ | ⟨-, m, panics⟩
        · obtain ⟨payload, framed, -⟩ := strict.sound message read
          exact framed.not_misread reasonable misread
        · exact strict.noPanic m panics
  · rintro ⟨holds, wellRead⟩
    by_cases framed : ∃ payload, Framed maxSize io payload
    · obtain ⟨payload, framed⟩ := framed
      rcases readMessage_of_read (framed.read reads.toLawful reasonable) framed.nonempty with
        ⟨message, denotes, read⟩ | ⟨nothing, -⟩
      · exact strict_of_denotes framed denotes read
      · obtain ⟨message, denotes⟩ := holds payload framed
        exact absurd denotes (nothing message)
    · obtain ⟨e, refused⟩ := readMessage_refuses fromStr
        (reads.otherwise io maxSize reasonable (not_exists.mp framed) wellRead)
      exact strict_of_err refused

end Readers

end Codec

/-- **When malformed bytes are an error.**  On every stream, the readers accept only what is
a message, refuse everything else and do not panic, exactly if a frame that the stream
starts with, of one byte at least and within the limit, holds a message, and its length is
not one that is misread. -/
theorem malformed_bytes_are_errors_iff (lib : CodecLib) (reads : lib.Reads) (io : Bytes) :
    (Strict maxRequestSize lib.requestFromStr (readRequest lib) io ↔
      (∀ payload, Framed maxRequestSize io payload →
        ∃ request, Denotes lib.requestFromStr payload request) ∧ ¬ Misread maxRequestSize io) ∧
    (Strict maxResponseSize lib.responseFromStr (readResponse lib) io ↔
      (∀ payload, Framed maxResponseSize io payload →
        ∃ response, Denotes lib.responseFromStr payload response) ∧
          ¬ Misread maxResponseSize io) :=
  ⟨strict_iff reads maxRequestSize_reasonable, strict_iff reads maxResponseSize_reasonable⟩

/-- A frame that holds a request, and one that is cut off. -/
theorem malformed_bytes_are_errors_sample :
    Strict maxRequestSize plainCodec.requestFromStr (readRequest plainCodec)
        (Varint.frame (toVec sampleRequest.toJson)) ∧
      Strict maxResponseSize plainCodec.responseFromStr (readResponse plainCodec) [0x02, 0x7b] := by
  constructor
  · refine (malformed_bytes_are_errors_iff plainCodec plainCodec_readsStreams _).1.mpr ?_
    have framed : Framed maxRequestSize (Varint.frame (toVec sampleRequest.toJson))
        (toVec sampleRequest.toJson) :=
      ⟨⟨[], (List.append_nil _).symm⟩, toVec_ne_nil _, by decide +kernel⟩
    refine ⟨?_, framed.not_misread maxRequestSize_reasonable⟩
    intro payload other
    have same := (framed.read plainCodec_lawful maxRequestSize_reasonable).symm.trans
      (other.read plainCodec_lawful maxRequestSize_reasonable)
    obtain rfl := Outcome.ok.inj same
    exact ⟨sampleRequest, _, DagCbor.ofUtf8_utf8 _, plainCodec_lawful.request_back _⟩
  · refine (malformed_bytes_are_errors_iff plainCodec plainCodec_readsStreams _).2.mpr ⟨?_, ?_⟩
    · intro payload framed
      have read := framed.read plainCodec_lawful maxResponseSize_reasonable
      have cut : plainCodec.readLengthPrefixed [0x02, 0x7b] maxResponseSize = .err .unexpectedEof := by
        decide +kernel
      cases cut.symm.trans read
    · intro misread
      cases misread with
      | padded n rest length longer overruns => simp at overruns
      | truncated n rest length shortest large positive fits follows =>
          cases (show some (2, [0x7b]) = some (n, rest) from length.decodes)
          simp at large

/-- Frames of one byte that is not UTF-8 or not JSON, a length that overruns the buffer, and one
of 2^64 + 18 in front of a request. -/
theorem malformed_bytes_panic :
    readRequest plainCodec [0x01, 0xff] = .panic "called `Result::unwrap()` on an `Err` value" ∧
      readResponse plainCodec [0x01, 0x7b] = .panic "called `Result::unwrap()` on an `Err` value" ∧
      readRequest plainCodec [0x80, 0x00, 1, 2, 3, 4, 5, 6, 7, 8] =
        .panic "range end index 11 out of range for slice of length 10" ∧
      readRequest plainCodec (Varint.encode (2 ^ 64 + 18) ++ toVec sampleRequest.toJson) =
        .ok sampleRequest ∧
      ¬ Strict maxRequestSize plainCodec.requestFromStr (readRequest plainCodec) [0x01, 0xff] ∧
      ¬ Strict maxResponseSize plainCodec.responseFromStr (readResponse plainCodec) [0x01, 0x7b] := by
  have notText : readRequest plainCodec [0x01, 0xff] =
      .panic "called `Result::unwrap()` on an `Err` value" := by decide +kernel
  have notJson : readResponse plainCodec [0x01, 0x7b] =
      .panic "called `Result::unwrap()` on an `Err` value" := by decide +kernel
  refine ⟨notText, notJson, by decide +kernel, ?_, fun strict => strict.noPanic _ notText,
    fun strict => strict.noPanic _ notJson⟩
  decide +kernel

end Ursa.Network

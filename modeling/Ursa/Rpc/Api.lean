/-
# Rpc.Api — the node's interface for clients

`ursa-rpc-server/src/api.rs`.  `NodeNetworkInterface` reads the block store it shares
with the service loop, and asks the loop for what it does not find there.

* `get` and `getData` look for the CID in the store, ask for it if it is not there,
  and then read.  `getData` looks for the root only.
* `stream` and `getFile` unwrap `getData` and write what it returns into a CAR file.
* `putCar` loads a CAR file into the store and has its roots indexed.

The handlers of the RPC server (`rpc/routes/network.rs`) are behind it.

`Network` says what comes of asking: an answer, and the store at that moment.  The CAR
format is third-party code (`CarCodec`); what is relied on is `CarCodec.RoundTrips`.

The database answers what is read here: `has` is unwrapped in the source, and `get` and the
traversal would return its error.
-/
import Ursa.Identity.Path
import Ursa.Network.Service
import Ursa.Store.DagTraversal
import Ursa.Theory.Varint

namespace Ursa.Rpc

set_option autoImplicit false

open Ursa.Theory (Outcome)
open Ursa.Network
open Ursa.IndexProvider (Deps)

/-! ## Asking the service loop -/

inductive ApiError where
  /-- The command could not be sent. -/
  | send (reason : String)
  /-- The reply channel was dropped. -/
  | canceled
  /-- "The bitswap failed, please check server logs .." -/
  | bitswapFailed (e : BlockError)
  | traversal (e : DagError)
  | car (reason : String)
  /-- "The PUT failed, please check server logs .." -/
  | putFailed
  | io (reason : String)
  deriving DecidableEq, Repr

/-- What comes of a `GetBitswap` command. -/
inductive Answer where
  | sendFailed (reason : String)
  | dropped
  | replied (result : Except BlockError Unit)

/-- The service, its peers and the time that passes until the answer. -/
abbrev Network := Store → Cid → BitswapType → Answer × Store

inductive ApiStep where
  | asked (cid : Cid) (query : BitswapType) (answer : Answer)
  | traversed (root : Cid)

structure Session where
  store : Store
  files : Identity.Path → Option Bytes
  /-- History: what the call has done so far. -/
  log : List ApiStep

/-- Ask for a CID and wait for the reply. -/
def request (net : Network) (cid : Cid) (query : BitswapType) (s : Session) :
    Outcome ApiError Unit × Session :=
  let (answer, store) := net s.store cid query
  let s := { s with store, log := s.log ++ [.asked cid query answer] }
  match answer with
  | .sendFailed reason => (.err (.send reason), s)
  | .dropped => (.err .canceled, s)
  | .replied (.error e) => (.err (.bitswapFailed e), s)
  | .replied (.ok _) => (.ok (), s)

/-- Ask for a CID that is not in the store. -/
def fetch (net : Network) (cid : Cid) (query : BitswapType) (s : Session) :
    Outcome ApiError Unit × Session :=
  if s.store.has cid then (.ok (), s) else request net cid query s

def get (net : Network) (cid : Cid) (s : Session) : Outcome ApiError (Option Bytes) × Session :=
  Outcome.andThen (fetch net cid .get s) fun _ s => (.ok (s.store.get cid), s)

section Data

variable (B : Blocks) (order : Nat → List Cid → Nat)

/-- The traversal at the end of `get_data`. -/
def traverse (root : Cid) (s : Session) : Outcome ApiError (List (Cid × Bytes)) × Session :=
  let s := { s with log := s.log ++ [.traversed root] }
  match dagTraversal B order s.store (convertCid root.toBytes) with
  | .ok dag => (.ok dag, s)
  | .err e => (.err (.traversal e), s)
  | .panic m => (.panic m, s)
  | .diverge => (.diverge, s)

def getData (net : Network) (root : Cid) (s : Session) :
    Outcome ApiError (List (Cid × Bytes)) × Session :=
  Outcome.andThen (fetch net root .sync s) fun _ s => traverse B order root s

/-! ## CAR files -/

structure CarHeader where
  roots : List Cid
  version : Nat

/-- What the code uses of `fvm_ipld_car`. -/
structure CarCodec where
  /-- `CarHeader::write_stream_async` -/
  writeStream : CarHeader → List (Cid × Bytes) → Except String Bytes
  /-- `load_car`: the blocks it stores, in order, and the roots it returns. -/
  loadCar : Bytes → List (Cid × Bytes) × Except String (List Cid)

/-- `load_car` returns the header's roots and stores the blocks that were written.  The
reader refuses other versions, a header without roots and blocks that do not match their
CIDs, so nothing is said of these. -/
def CarCodec.RoundTrips (car : CarCodec) : Prop :=
  ∀ roots blocks, roots ≠ [] → (∀ b ∈ blocks, B.new b.1 b.2 = true) →
    ∃ file, car.writeStream { roots, version := 1 } blocks = .ok file ∧
      car.loadCar file = (blocks, .ok roots)

variable (car : CarCodec)

def carHeader (root : Cid) : CarHeader := { roots := [root], version := 1 }

/-- What is sent to the task that writes the CAR file. -/
def carBlocks (dag : List (Cid × Bytes)) : List (Cid × Bytes) :=
  dag.map fun d => (convertCid d.1.toBytes, d.2)

/-- `stream`: the body is what the writing task produces, which fails on its own. -/
def stream (net : Network) (root : Cid) (s : Session) :
    Outcome ApiError (Except String Bytes) × Session :=
  let (data, s) := getData B order net root s
  Outcome.andThen (data.expect "called `Result::unwrap()` on an `Err` value", s) fun dag s =>
    (.ok (car.writeStream (carHeader root) (carBlocks dag)), s)

/-- How the file system answers `get_file`. -/
structure FileEnv where
  createDir : Except String Unit
  create : Except String Unit
  write : Except String Unit

/-- The directory and the file can be made and written. -/
structure FileEnv.Succeed (files : FileEnv) : Prop where
  createDir : files.createDir = .ok ()
  create : files.create = .ok ()
  write : files.write = .ok ()

/-- Where `get_file` puts the CAR file of the root whose text is `name`. -/
def carPath (path name : String) : Identity.Path :=
  Identity.join (DagCbor.utf8 path) (DagCbor.utf8 (name ++ ".car"))

/-- `get_file` -/
def getFile (net : Network) (files : FileEnv) (path name : String) (root : Cid) (s : Session) :
    Outcome ApiError Unit × Session :=
  let (data, s) := getData B order net root s
  Outcome.andThen (data.expect "called `Result::unwrap()` on an `Err` value", s) fun dag s =>
    match car.writeStream (carHeader root) (carBlocks dag) with
    | .error _ => (.panic "called `Result::unwrap()` on an `Err` value", s)
    | .ok buffer =>
        let filePath := carPath path name
        match Identity.parent filePath, files.createDir, files.create, files.write with
        | none, _, _, _ => (.panic "called `Option::unwrap()` on a `None` value", s)
        | some _, .error reason, _, _ => (.err (.io reason), s)
        | some _, .ok _, .error _, _ =>
            (.panic "called `Result::unwrap()` on an `Err` value", s)
        | some _, .ok _, .ok _, .error reason =>
            (.err (.io reason), { s with files := Function.update s.files filePath (some []) })
        | some _, .ok _, .ok _, .ok _ =>
            (.ok (), { s with files := Function.update s.files filePath (some buffer) })

theorem parent_carPath (path name : String) :
    ∃ dir, Identity.parent (carPath path name) = some dir := by
  have ending : DagCbor.utf8 (name ++ ".car") = DagCbor.utf8 (name ++ ".ca") ++ [114] := by
    have extension : DagCbor.utf8 ".car" = DagCbor.utf8 ".ca" ++ [114] := by decide +kernel
    rw [DagCbor.utf8_append, DagCbor.utf8_append, extension, List.append_assoc]
  rw [carPath, Identity.join, ending]
  split
  · exact Identity.parent_of_last (by decide) _
  · rw [← List.append_assoc]
    exact Identity.parent_of_last (by decide) _

end Data

/-! ## Uploads -/

/-- Write blocks in order. -/
def putAll (s : Store) (blocks : List (Cid × Bytes)) : Store :=
  blocks.foldl (fun s b => s.put b.1 b.2) s

/-- `put_car`, with the service loop that takes the `Index` command.  A loop that has
ended takes no command. -/
def putCar {K : Type} (deps : Deps K) (B : Blocks) (car : CarCodec) (reader : Bytes)
    (sender : SenderId) (id : Nat) (s : UrsaService K) :
    Outcome ApiError (List Cid) × UrsaService K :=
  let (blocks, loaded) := car.loadCar reader
  let s := { s with store := putAll s.store blocks }
  match loaded with
  | .error reason => (.err (.car reason), s)
  | .ok cids =>
      match s.step deps B (.command (.index cids sender) id) with
      | none => (.err (.send "sending into a closed channel"), s)
      | some t =>
          -- the loop has replied, or it has dropped the sender
          if (sender, cids) ∈ t.history.indexed.drop s.history.indexed.length then (.ok cids, t)
          else (.err .putFailed, t)

/-- `put_file`: the CAR file at a path, if it can be opened. -/
def putFile {K : Type} (deps : Deps K) (B : Blocks) (car : CarCodec)
    (openFile : Except String Bytes) (sender : SenderId) (id : Nat) (s : UrsaService K) :
    Outcome ApiError (List Cid) × UrsaService K :=
  match openFile with
  | .error reason => (.err (.io reason), s)
  | .ok reader => putCar deps B car reader sender id s

/-! ## Handlers -/

inductive RpcError where
  | internal (e : ApiError)
  | invalidParams
  deriving DecidableEq, Repr

/-- `get_cid_handler`; `fromStr` is `Cid::from_str`. -/
def getCidHandler (fromStr : String → Option Cid) (get : Cid → Outcome ApiError (Option Bytes))
    (cid : String) : Outcome RpcError Bytes :=
  match fromStr cid with
  | some cid =>
      match get cid with
      | .err e => .err (.internal e)
      | .ok (some data) => .ok data
      | .ok none => .panic "called `Option::unwrap()` on a `None` value"
      | .panic m => .panic m
      | .diverge => .diverge
  | none => .err .invalidParams

/-- `get_file_handler` -/
def getFileHandler (fromStr : String → Option Cid)
    (getFile : String → Cid → Outcome ApiError Unit) (path cid : String) : Outcome RpcError Unit :=
  match fromStr cid with
  | some cid =>
      match getFile path cid with
      | .err e => .err (.internal e)
      | .ok _ => .ok ()
      | .panic m => .panic m
      | .diverge => .diverge
  | none => .err .invalidParams

/-- `put_file_handler`; the texts of the roots are joined (`toString` is `Cid::to_string`). -/
def putFileHandler (toString : Cid → String) (putFile : String → Outcome ApiError (List Cid))
    (path : String) : Outcome RpcError String :=
  match putFile path with
  | .err e => .err (.internal e)
  | .ok cids => .ok (String.join (cids.map toString))
  | .panic m => .panic m
  | .diverge => .diverge

/-! ## HTTP -/

inductive NetworkError where
  | notFoundError (message : String)
  | internalError (message : String)
  deriving DecidableEq, Repr

/-- `into_response`: the status and the body. -/
def NetworkError.intoResponse : NetworkError → Nat × String
  | .notFoundError message => (404, message)
  | .internalError message => (500, message)

/-- A response with status 200. -/
structure StreamResponse where
  contentType : String
  contentDisposition : String
  body : Except String Bytes

/-- A header value holds no control characters but the tab. -/
def headerValue (text : String) : Option String :=
  if (DagCbor.utf8 text).all fun b => (32 ≤ b && b ≠ 127) || b = 9 then some text else none

/-- `get_handler`; `display` is the text of an error. -/
def getHandler (fromStr : String → Option Cid) (display : ApiError → String)
    (stream : Cid → Outcome ApiError (Except String Bytes)) (cidStr : String) :
    Outcome NetworkError StreamResponse :=
  match fromStr cidStr with
  | some cid =>
      match stream cid with
      | .ok body =>
          match headerValue ("attachment; filename=\"" ++ cidStr ++ ".car\"") with
          | some contentDisposition =>
              .ok
                { contentType := "application/vnd.curl.car; charset=utf-8"
                  contentDisposition, body }
          | none => .panic "called `Result::unwrap()` on an `Err` value"
      | .err e => .err (.internalError (display e))
      | .panic m => .panic m
      | .diverge => .diverge
  | none => .err (.internalError ("Invalid Cid String, Cannot Parse " ++ cidStr ++ " to CID"))

/-! ## An executable CAR format -/

/-- Frames as in a CAR file: the roots first, then the blocks.  A block's CID has a
frame of its own. -/
def plainCar : CarCodec where
  writeStream header blocks :=
    .ok (Theory.Varint.frame (Theory.Varint.frames (header.roots.map Cid.toBytes)) ++
      Theory.Varint.frames (blocks.map fun b => Theory.Varint.frame b.1.toBytes ++ b.2))
  loadCar file :=
    let block (payload : Bytes) : Option (Cid × Bytes) :=
      (Theory.Varint.readFrame payload).map fun r => (convertCid r.1, r.2)
    match Theory.Varint.readFrame file with
    | none => ([], .error "no header")
    | some (header, rest) =>
        match Theory.Varint.readFrames header, Theory.Varint.readFrames rest with
        | some roots, some payloads =>
            match payloads.mapM block with
            | some blocks => (blocks, .ok (roots.map convertCid))
            | none => ([], .error "invalid block")
        | _, _ => ([], .error "invalid frame")

theorem plainCar_roundTrips (B : Blocks) : plainCar.RoundTrips B := by
  intro headerRoots blocks _ accepted
  clear accepted
  refine ⟨_, rfl, ?_⟩
  have each : (blocks.map fun b => Theory.Varint.frame b.1.toBytes ++ b.2).mapM
      (fun payload => (Theory.Varint.readFrame payload).map fun r => (convertCid r.1, r.2)) =
      some blocks := by
    induction blocks with
    | nil => rfl
    | cons b rest ih =>
        simp only [List.map_cons, List.mapM_cons, Theory.Varint.readFrame_frame, ih]
        rfl
  have roots : (headerRoots.map Cid.toBytes).map convertCid = headerRoots := by
    rw [List.map_map]
    exact List.map_id _
  simp only [plainCar, Theory.Varint.readFrame_frame, Theory.Varint.readFrames_frames, each, roots]

end Ursa.Rpc

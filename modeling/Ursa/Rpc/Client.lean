/-
# Rpc.Client — a call from the RPC client to a handler of the server and back

`ursa-rpc-client/src/lib.rs` on one side, `ursa-rpc-server/src/rpc/rpc.rs` on the other.
The client sends the parameters of a method as a JSON-RPC request; the server finds the
handler by its name, reads the parameters, and answers with what the handler returned.

* A success travels as a response object under status 200.  The client reads it as one of
  two shapes, a result or an error (`JsonRpcResponse`).
* An error is taken out of its response object by `rpc_handler` and sent on its own, under
  status 500.  The client looks at the status first, and then no further: its own shape for
  errors is never read.

`call_eq` says what comes back for every outcome of a handler.  HTTP delivers the bodies as
they are; the JSON of both sides is `Theory.Json`.
-/
import Ursa.Network.Codec
import Ursa.Rpc.Api

namespace Ursa.Rpc

set_option autoImplicit false

open Ursa.Theory
open Ursa.Network (bytesOf_ofBytes)
open Ursa.Network.Codec (stringOf bytesOf ofBytes)

/-! ## Methods -/

structure NetworkGetParams where
  cid : String

structure NetworkPutFileParams where
  path : String

structure NetworkGetFileParams where
  path : String
  cid : String

/-- The methods of the server. -/
inductive Method where
  | getCid
  | getFile
  | putFile
  deriving DecidableEq

namespace Method

def name : Method → String
  | .getCid => "ursa_get_cid"
  | .getFile => "ursa_get_file"
  | .putFile => "ursa_put_file"

def ofName (name : String) : Option Method :=
  if name = "ursa_get_cid" then some .getCid
  else if name = "ursa_get_file" then some .getFile
  else if name = "ursa_put_file" then some .putFile
  else none

def Params : Method → Type
  | .getCid => NetworkGetParams
  | .getFile => NetworkGetFileParams
  | .putFile => NetworkPutFileParams

def Result : Method → Type
  | .getCid => Bytes
  | .getFile => Unit
  | .putFile => String

end Method

/-! ## JSON -/

/-- The value of a field; none if it is missing or there twice. -/
def field (key : String) (members : List (String × Json.Value)) : Option Json.Value :=
  match members.filter (fun m => m.1 = key) with
  | [m] => some m.2
  | _ => none

def i64Of : Json.Value → Option Int
  | .number ⟨false, n, [], none⟩ => if n < 2 ^ 63 then some n else none
  | .number ⟨true, n, [], none⟩ => if 0 < n ∧ n ≤ 2 ^ 63 then some (-n) else none
  | _ => none

namespace Method

/-- The parameters as an object, one text for each field. -/
def paramsToJson : (m : Method) → m.Params → Json.Value
  | .getCid, params => .object [("cid", .string params.cid)]
  | .getFile, params => .object [("path", .string params.path), ("cid", .string params.cid)]
  | .putFile, params => .object [("path", .string params.path)]

def paramsOfJson : (m : Method) → Json.Value → Option m.Params
  | .getCid, .object members => ((field "cid" members).bind stringOf).map NetworkGetParams.mk
  | .getCid, .array [cid] => (stringOf cid).map NetworkGetParams.mk
  | .getFile, .object members =>
      ((field "path" members).bind stringOf).bind fun path =>
        ((field "cid" members).bind stringOf).map fun cid => NetworkGetFileParams.mk path cid
  | .getFile, .array [path, cid] =>
      (stringOf path).bind fun path => (stringOf cid).map fun cid => NetworkGetFileParams.mk path cid
  | .putFile, .object members => ((field "path" members).bind stringOf).map NetworkPutFileParams.mk
  | .putFile, .array [path] => (stringOf path).map NetworkPutFileParams.mk
  | _, _ => none

def resultToJson : (m : Method) → m.Result → Json.Value
  | .getCid, data => ofBytes data
  | .getFile, () => .null
  | .putFile, text => .string text

def resultOfJson : (m : Method) → Json.Value → Option m.Result
  | .getCid, v => bytesOf v
  | .getFile, .null => some ()
  | .getFile, _ => none
  | .putFile, v => stringOf v

theorem ofName_name (m : Method) : ofName m.name = some m := by
  cases m <;> rfl

theorem paramsOfJson_toJson (m : Method) (params : m.Params) :
    m.paramsOfJson (m.paramsToJson params) = some params := by
  cases m <;> rfl

theorem resultOfJson_toJson (m : Method) (result : m.Result) :
    m.resultOfJson (m.resultToJson result) = some result := by
  cases m with
  | getCid => exact bytesOf_ofBytes result
  | getFile => rfl
  | putFile => rfl

end Method

/-! ## JSON-RPC objects -/

/-- `jsonrpc_v2::Error` -/
structure Error where
  code : Int
  message : String
  data : Option Json.Value

/-- What the code uses of `jsonrpc_v2` and `serde_json` beside their formats. -/
structure RpcLib where
  methodNotFound : Error
  invalidParams : Error
  internal : ApiError → Error
  /-- What is said of a text that cannot be read. -/
  unreadable : String → String

/-- The JSON of a whole number. -/
def ofInt : Int → Json.Value
  | .ofNat n => .natural n
  | .negSucc n =>
      .number { negative := true, whole := n + 1, fraction := [], exponent := none }

def Error.toJson (e : Error) : Json.Value :=
  .object ([("code", ofInt e.code), ("message", .string e.message)] ++
    (e.data.map fun data => ("data", data)).toList)

/-- A request without an id is a notification. -/
structure RequestObject where
  method : String
  params : Option Json.Value
  id : Option Json.Value

def isV2 : Json.Value → Bool
  | .string version => version = "2.0"
  | _ => false

def isId : Json.Value → Bool
  | .null => true
  | .string _ => true
  | v => (i64Of v).isSome

def RequestObject.toJson (req : RequestObject) : Json.Value :=
  .object ([("jsonrpc", .string "2.0"), ("method", .string req.method)] ++
    (req.params.map fun params => ("params", params)).toList ++
    (req.id.map fun id => ("id", id)).toList)

def RequestObject.ofJson : Json.Value → Option RequestObject
  | .object members =>
      match field "jsonrpc" members, (field "method" members).bind stringOf with
      | some version, some method =>
          let id := field "id" members
          if isV2 version && id.all isId then some { method, params := field "params" members, id }
          else none
      | _, _ => none
  | _ => none

inductive ResponseObject where
  | result (result : Json.Value) (id : Json.Value)
  | error (error : Error) (id : Json.Value)

inductive ResponseObjects where
  | one (response : ResponseObject)
  /-- The answer to a batch. -/
  | many (responses : List ResponseObject)
  /-- The answer to a notification. -/
  | empty

/-- The client's error object. -/
structure JsonRpcError where
  code : Int
  message : String

def JsonRpcError.ofJson : Json.Value → Option JsonRpcError
  | .object members =>
      match (field "code" members).bind i64Of, (field "message" members).bind stringOf with
      | some code, some message => some { code, message }
      | _, _ => none
  | .array [code, message] =>
      match i64Of code, stringOf message with
      | some code, some message => some { code, message }
      | _, _ => none
  | _ => none

/-- The two shapes of a response, as the client reads them. -/
inductive JsonRpcResponse (R : Type) where
  | result (result : R)
  | error (error : JsonRpcError)

/-- The first shape that fits. -/
def JsonRpcResponse.ofJson {R : Type} (resultOf : Json.Value → Option R) :
    Json.Value → Option (JsonRpcResponse R)
  | .object members =>
      match field "jsonrpc" members, field "id" members with
      | some version, some id =>
          if isV2 version && isId id then
            match (field "result" members).bind resultOf with
            | some value => some (.result value)
            | none => ((field "error" members).bind JsonRpcError.ofJson).map .error
          else none
      | _, _ => none
  | _ => none

/-! ## The server -/

structure HttpResponse where
  status : Nat
  body : String

def textOf (v : Json.Value) : String := String.ofList (Json.print v)

abbrev Handlers := (m : Method) → m.Params → Outcome Error m.Result

/-- What the handler with the request's name makes of the request's parameters. -/
def runHandler (lib : RpcLib) (handlers : Handlers) (req : RequestObject) :
    Outcome Error Json.Value :=
  match Method.ofName req.method with
  | none => .err lib.methodNotFound
  | some m =>
      match req.params.bind m.paramsOfJson with
      | none => .err lib.invalidParams
      | some params =>
          match handlers m params with
          | .ok result => .ok (m.resultToJson result)
          | .err e => .err e
          | .panic message => .panic message
          | .diverge => .diverge

/-- `handle`: a result or an error is wrapped, unless nobody wants it. -/
def handle (lib : RpcLib) (handlers : Handlers) (req : RequestObject) :
    Outcome Error ResponseObjects :=
  match runHandler lib handlers req, req.id with
  | .ok result, some id => .ok (.one (.result result id))
  | .err e, some id => .ok (.one (.error e id))
  | .ok _, none => .ok .empty
  | .err _, none => .ok .empty
  | .panic message, _ => .panic message
  | .diverge, _ => .diverge

/-- `rpc_handler`, with the status and the body of what it returns. -/
def rpcHandler : ResponseObjects → Outcome Error HttpResponse
  | .one (.result result id) => .ok
      { status := 200
        body := textOf (.object [("jsonrpc", .string "2.0"), ("result", result), ("id", id)]) }
  -- `ServerErrors::ApiError`
  | .one (.error error _) => .ok { status := 500, body := textOf error.toJson }
  | .many _ => .panic "not yet implemented"
  | .empty => .panic "not yet implemented"

/-- The server, from the body of a request to its response. -/
def serve (lib : RpcLib) (handlers : Handlers) (body : String) : Outcome Error HttpResponse :=
  match Json.parse body.toList with
  | none => .ok { status := 400, body := "Failed to parse the request body as JSON" }
  | some v =>
      match RequestObject.ofJson v with
      | none => .ok { status := 422, body := "Failed to deserialize the JSON body into the target type" }
      | some req =>
          match handle lib handlers req with
          | .ok responses => rpcHandler responses
          | .err e => .err e
          | .panic message => .panic message
          | .diverge => .diverge

/-- What the handlers use of the node's interface. -/
structure NetworkInterface where
  get : Cid → Outcome ApiError (Option Bytes)
  getFile : String → Cid → Outcome ApiError Unit
  putFile : String → Outcome ApiError (List Cid)

def RpcError.toError {α : Type} (lib : RpcLib) : Outcome RpcError α → Outcome Error α
  | .ok a => .ok a
  | .err (.internal e) => .err (lib.internal e)
  | .err .invalidParams => .err lib.invalidParams
  | .panic message => .panic message
  | .diverge => .diverge

/-- `RpcServer::new` -/
def RpcServer.new (lib : RpcLib) (fromStr : String → Option Cid) (toString : Cid → String)
    (interface : NetworkInterface) : Handlers
  | .getCid, params => RpcError.toError lib (getCidHandler fromStr interface.get params.cid)
  | .getFile, params =>
      RpcError.toError lib (getFileHandler fromStr interface.getFile params.path params.cid)
  | .putFile, params => RpcError.toError lib (putFileHandler toString interface.putFile params.path)

/-! ## The client -/

/-- What `call` makes of a response. -/
def readResponse (lib : RpcLib) (m : Method) (res : HttpResponse) : Outcome Error m.Result :=
  if res.status ≠ 200 then
    .err { message := "Error code from HTTP Response: " ++ toString res.status
           code := res.status, data := none }
  else
    match (Json.parse res.body.toList).bind (JsonRpcResponse.ofJson m.resultOfJson) with
    | none =>
        .err { message := "Parse Error: Response from RPC endpoint could not be parsed. Error was: " ++
                 lib.unreadable res.body
               code := 200, data := none }
    | some (.result result) => .ok result
    | some (.error error) => .err { code := error.code, message := error.message, data := none }

/-- `call`: one request to the server and its answer.  A server that is gone is unwrapped. -/
def call (lib : RpcLib) (handlers : Handlers) (m : Method) (params : m.Params) :
    Outcome Error m.Result :=
  let req : RequestObject :=
    { method := m.name, params := some (m.paramsToJson params), id := some (.natural 1) }
  match serve lib handlers (textOf req.toJson) with
  | .ok res => readResponse lib m res
  | .err e => .err e
  | .panic _ => .panic "called `Result::unwrap()` on an `Err` value"
  | .diverge => .diverge

/-! ## What comes back -/

theorem parse_textOf (v : Json.Value) : Json.parse (textOf v).toList = some v := by
  rw [textOf, String.toList_ofList, Json.parse_print]

theorem RequestObject.ofJson_toJson (method : String) (params id : Json.Value)
    (valid : isId id = true) :
    RequestObject.ofJson (RequestObject.toJson { method, params := some params, id := some id }) =
      some { method, params := some params, id := some id } := by
  simp [RequestObject.ofJson, RequestObject.toJson, field, stringOf, isV2, valid]

/-- The server runs the handler on the parameters the client was given. -/
theorem serve_request (lib : RpcLib) (handlers : Handlers) (m : Method) (params : m.Params) :
    serve lib handlers (textOf (RequestObject.toJson
        { method := m.name, params := some (m.paramsToJson params), id := some (.natural 1) })) =
      match handlers m params with
      | .ok result => rpcHandler (.one (.result (m.resultToJson result) (.natural 1)))
      | .err e => rpcHandler (.one (.error e (.natural 1)))
      | .panic message => .panic message
      | .diverge => .diverge := by
  have id : isId (.natural 1) = true := by decide
  rw [serve, parse_textOf]
  simp only [RequestObject.ofJson_toJson _ _ _ id, handle, runHandler, Method.ofName_name,
    Option.bind_some, Method.paramsOfJson_toJson]
  cases handlers m params <;> rfl

/-- The client reads the result of a response under status 200. -/
theorem readResponse_result (lib : RpcLib) (m : Method) (result : m.Result) :
    readResponse lib m { status := 200, body := textOf (.object [("jsonrpc", .string "2.0"),
      ("result", m.resultToJson result), ("id", .natural 1)]) } = .ok result := by
  have id : isId (.natural 1) = true := by decide
  have shape : JsonRpcResponse.ofJson m.resultOfJson (.object [("jsonrpc", .string "2.0"),
      ("result", m.resultToJson result), ("id", .natural 1)]) = some (.result result) := by
    simp [JsonRpcResponse.ofJson, field, isV2, id, m.resultOfJson_toJson]
  rw [readResponse, if_neg (by simp), parse_textOf, Option.bind_some, shape]

/-- Of any other status the client says the status. -/
theorem readResponse_error (lib : RpcLib) (m : Method) (body : String) :
    readResponse lib m { status := 500, body } =
      .err { code := 500, message := "Error code from HTTP Response: 500", data := none } := by
  have text : "Error code from HTTP Response: " ++ toString 500 =
      "Error code from HTTP Response: 500" := by decide +kernel
  rw [readResponse, if_pos (by simp), text]
  rfl

/-- **What comes back**: the handler's result, and for an error its status only. -/
theorem call_eq (lib : RpcLib) (handlers : Handlers) (m : Method) (params : m.Params) :
    call lib handlers m params =
      match handlers m params with
      | .ok result => .ok result
      | .err _ => .err { code := 500, message := "Error code from HTTP Response: 500", data := none }
      | .panic _ => .panic "called `Result::unwrap()` on an `Err` value"
      | .diverge => .diverge := by
  rw [call, serve_request]
  cases handlers m params with
  | ok result => exact readResponse_result lib m result
  | err e => exact readResponse_error lib m _
  | panic message => rfl
  | diverge => rfl

/-- The client's result is the handler's outcome: the same value, or an error with the same
code and message. -/
def Agrees {R : Type} : Outcome Error R → Outcome Error R → Prop
  | .ok value, result => result = .ok value
  | .err e, result => ∃ data, result = .err { code := e.code, message := e.message, data }
  | _, _ => True

/-- **When client and server agree.**  For every method, all parameters and all handlers,
`call` returns the handler's outcome exactly if that is no error, or one that looks like the
status the client sees. -/
theorem client_and_server_agree_iff (lib : RpcLib) (handlers : Handlers) (m : Method)
    (params : m.Params) :
    Agrees (handlers m params) (call lib handlers m params) ↔
      ∀ e, handlers m params = .err e →
        e.code = 500 ∧ e.message = "Error code from HTTP Response: 500" := by
  rw [call_eq]
  cases handlers m params with
  | err e =>
      constructor
      · rintro ⟨data, same⟩ e' isErr
        cases isErr
        cases e
        cases same
        exact ⟨rfl, rfl⟩
      · intro status
        obtain ⟨code, message⟩ := status e rfl
        refine ⟨none, ?_⟩
        rw [code, message]
  | ok result => simp [Agrees]
  | panic message => simp [Agrees]
  | diverge => simp [Agrees]

/-! The handler of `ursa_get_cid` on a text that is no CID. -/

def sampleLib : RpcLib where
  methodNotFound := { code := -32601, message := "Method not found", data := none }
  invalidParams := { code := -32602, message := "Invalid params", data := none }
  internal _ := { code := -32603, message := "Internal Error", data := none }
  unreadable _ := "data did not match any variant of untagged enum JsonRpcResponse"

def sampleInterface : NetworkInterface where
  get _ := .ok (some [])
  getFile _ _ := .ok ()
  putFile _ := .ok []

def sampleHandlers : Handlers :=
  RpcServer.new sampleLib (fun _ => none) (fun _ => "") sampleInterface

def sampleParams : Method.getCid.Params := NetworkGetParams.mk "no cid"

/-- The handler refuses the parameters; the client sees an internal server error. -/
theorem handler_error_is_lost :
    sampleHandlers .getCid sampleParams =
        .err { code := -32602, message := "Invalid params", data := none } ∧
      call sampleLib sampleHandlers .getCid sampleParams =
        .err { code := 500, message := "Error code from HTTP Response: 500", data := none } ∧
      ¬ Agrees (sampleHandlers .getCid sampleParams)
        (call sampleLib sampleHandlers .getCid sampleParams) := by
  have handler : sampleHandlers .getCid sampleParams =
      .err { code := -32602, message := "Invalid params", data := none } := rfl
  have called : call sampleLib sampleHandlers .getCid sampleParams =
      .err { code := 500, message := "Error code from HTTP Response: 500", data := none } := by
    rw [call_eq, handler]
  refine ⟨handler, called, ?_⟩
  rw [handler, called]
  rintro ⟨data, same⟩
  cases same

end Ursa.Rpc

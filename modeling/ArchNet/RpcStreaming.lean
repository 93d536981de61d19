import ArchNet.Lts
import ArchNet.PBCodec
import ArchNet.Reassembly

/-!
# RPC Streaming Between Two Endpoints

Two `StreamingConnection`s share a byte stream. This module follows one direction: the
sending side with its queue `sender_chan_` and the fiber that writes the queued frames, the
bytes on their way, and the receiving side with the fiber that calls `recv_loop` and fills
`inbox_`. The fibers, the callers and the network are interleaved in any order.

## Conventions

Writes are complete: a frame is one write of its header and, when it has a payload, one of
its payload, and in between other fibers run. A write on a closed descriptor fails and
writes nothing. What the sending side's own recv fiber does — it may see a CLOSE, or end and
close the connection — depends on the other direction and happens at any time here. The
stream to the receiving side may end at any time, after any number of the bytes under way.

The receiving side's other fibers wait on channels that only `close_wc_connection` pushes
to, so their calls of it find `closed_` set. The fields `sent`, `started` and `wrote` are a
record that no function reads.

## Main results

* `recvLoop_outgoing`: what a call of `recv_loop` makes of any beginning of a frame.
* `inbox_of_reach`: **delivery** — in every state reached, the buffers pushed to `inbox_` are
  a beginning of those that `StreamingEncode` produced, in order, and only nulls follow.
-/

namespace ArchNet

open Bytes

namespace Streaming

/-! ### The frames of a streaming connection -/

/-- The tasks of `sender_chan_`: a buffer of `send`, a heartbeat, a `close_streaming`. -/
inductive Outgoing
  | data (buffer : List UInt8)
  | ping
  | close
  deriving Repr, DecidableEq

/-- The frame that a task writes. -/
def Outgoing.frame : Outgoing → WsFrame
  | data buffer => ⟨true, .binary, buffer⟩
  | ping => ⟨true, .ping, []⟩
  | close => ⟨true, .close, []⟩

/-- The buffer of a task of `send`. -/
def Outgoing.buffer? : Outgoing → Option (List UInt8)
  | data buffer => some buffer
  | ping => none
  | close => none

/-- The buffers among tasks. -/
def buffers (os : List Outgoing) : List (List UInt8) := os.filterMap Outgoing.buffer?

/-- Frames on the wire. -/
def bytesOf (os : List Outgoing) : List UInt8 := (os.map fun o => o.frame.bytes).flatten

@[simp] theorem buffers_append (os os' : List Outgoing) :
    buffers (os ++ os') = buffers os ++ buffers os' := List.filterMap_append

@[simp] theorem bytesOf_append (os os' : List Outgoing) :
    bytesOf (os ++ os') = bytesOf os ++ bytesOf os' := by
  simp [bytesOf]

@[simp] theorem bytesOf_singleton (o : Outgoing) : bytesOf [o] = o.frame.bytes := by
  simp [bytesOf]

/-! ### The two sides -/

/-- Where the sender fiber is: before its next `pop`, between the two writes of a frame, or
gone. -/
inductive SenderPc
  | idle
  | body (payload : List UInt8)
  | exited
  deriving Repr, DecidableEq

/-- The sending side. A `none` in the queue is the null that ends the fiber. -/
structure Sender where
  queue : List (Option Outgoing) := []
  pc : SenderPc := .idle
  remoteClose : Bool := false
  closed : Bool := false
  sent : List (List UInt8) := []
  started : List Outgoing := []
  wrote : List UInt8 := []
  deriving Repr, DecidableEq

/-- Where the recv fiber is: in its loop, behind it, or gone. -/
inductive ReceiverPc
  | reading
  | leaving
  | left
  deriving Repr, DecidableEq

/-- The receiving side. `inbox` is everything ever pushed to `inbox_`. -/
structure Receiver where
  loop : LoopState := {}
  src : Source := { bytes := [] }
  pc : ReceiverPc := .reading
  closed : Bool := false
  inbox : List (Option (List UInt8)) := []
  deriving Repr, DecidableEq

/-- The two sides. -/
structure State where
  a : Sender := {}
  b : Receiver := {}
  deriving Repr, DecidableEq

section System

variable {M D : Type} (lib : Libraries M D)

/-- What can happen. -/
inductive Action (M : Type)
  | send (msg : M) (room : ℕ)
  | ping
  | closeStreaming
  | remoteClose
  | closeSender
  | pop
  | writeBody
  | segment (cuts : List ℕ)
  | sever (n : ℕ) (ending : StreamEnd)
  | recv
  | closeReceiver

/-- Bytes written by the sending side: they are under way, unless the stream has ended. -/
def State.write (s : State) (bytes : List UInt8) : State :=
  { a := { s.a with wrote := s.a.wrote ++ bytes }
    b := if s.b.src.ending = none then
        { s.b with src := { s.b.src with bytes := s.b.src.bytes ++ bytes } }
      else s.b }

/-- `addTask`. -/
def Sender.addTask (a : Sender) (o : Outgoing) : Sender :=
  { a with queue := a.queue ++ [some o] }

/-- `StreamingConnection::send`: `none` when it answers `false`. -/
def Sender.send (a : Sender) (room : ℕ) (msg : M) : Option Sender :=
  if a.remoteClose then none
  else (streamingEncode lib room msg).made?.map fun buffer =>
    { a.addTask (.data buffer) with sent := a.sent ++ [buffer] }

/-- `close_wc_connection`, on the sending side. -/
def Sender.closeWcConnection (a : Sender) : Sender :=
  if a.closed then a
  else { a with closed := true, remoteClose := true, queue := a.queue ++ [none] }

/-- `close_wc_connection`, on the receiving side. -/
def Receiver.closeWcConnection (b : Receiver) : Receiver :=
  if b.closed then b else { b with closed := true, inbox := b.inbox ++ [none] }

/-- The sender fiber takes a task and writes the header of its frame. A task whose header
cannot be written is over. -/
def popTask (s : State) : Option State :=
  match s.a.pc, s.a.queue with
  | .idle, none :: queue => some { s with a := { s.a with queue := queue, pc := .exited } }
  | .idle, some o :: queue =>
      if s.a.closed then some { s with a := { s.a with queue := queue } }
      else
        let pc := if o.frame.payload = [] then .idle else .body o.frame.payload
        some (({ s with a := { s.a with
            queue := queue, pc := pc, started := s.a.started ++ [o] } }).write
          o.frame.header.makeFrameHeader)
  | _, _ => none

/-- The sender fiber writes the payload of its frame. -/
def writeBody (s : State) : Option State :=
  match s.a.pc with
  | .body payload =>
      if s.a.closed then some { s with a := { s.a with pc := .idle } }
      else some (({ s with a := { s.a with pc := .idle } }).write payload)
  | _ => none

/-- The recv fiber calls `recv_loop`. -/
def recvCall (b : Receiver) : Option Receiver :=
  if b.pc = .reading then
    (Robin.recvLoop b.loop b.src).map fun r =>
      { b with
        loop := r.state
        src := r.src
        inbox := b.inbox ++ r.events
        pc := if r.ok then .reading else .leaving }
  else none

/-- One action. -/
def step (s : State) : Action M → Option State
  | .send msg room => (s.a.send lib room msg).map fun a => { s with a := a }
  | .ping => some { s with a := s.a.addTask .ping }
  | .closeStreaming => some { s with a := s.a.addTask .close }
  | .remoteClose => some { s with a := { s.a with remoteClose := true } }
  | .closeSender => some { s with a := s.a.closeWcConnection }
  | .pop => popTask s
  | .writeBody => writeBody s
  | .segment cuts => some { s with b := { s.b with src := { s.b.src with cuts := cuts } } }
  | .sever n ending =>
      if s.b.src.ending = none then
        some { s with b := { s.b with
          src := { s.b.src with bytes := s.b.src.bytes.take n, ending := some ending } } }
      else none
  | .recv => (recvCall s.b).map fun b => { s with b := b }
  | .closeReceiver =>
      if s.b.pc = .leaving ∨ s.b.closed = true then
        some { s with b := { s.b.closeWcConnection with
          pc := if s.b.pc = .leaving then .left else s.b.pc } }
      else none

end System

/-! ### One call on a beginning of a frame -/

/-- A call that has only a part of a frame waits or answers `false`, and pushes nothing. -/
theorem recvLoop_part {o : Outgoing} (hlt : o.frame.payload.length < 2 ^ 32)
    {more : List UInt8} (hne : more ≠ []) {src : Source}
    (hb : src.bytes ++ more = o.frame.bytes) {r : LoopResult (Option (List UInt8))}
    (h : Robin.recvLoop {} src = some r) : r.ok = false ∧ r.events = [] := by
  have hfits : o.frame.header.payloadLen < 2 ^ 64 := lt_trans hlt (by decide)
  -- the header is there and the payload is not
  have hpayload : ∀ got, src.bytes = o.frame.header.makeFrameHeader ++ got →
      o.frame.payload = got ++ more → r.ok = false ∧ r.events = [] := by
    intro got hsrc hpay
    have hd : rfcHead src.bytes = some (o.frame.header, got) := by
      rw [hsrc]
      exact rfcHead_makeFrameHeader o.frame.header got hfits rfl
    obtain ⟨cuts, -, hread⟩ := Robin.readFrameHead_unmasked hd rfl
    rw [Robin.recvLoop, recvLoop_head Robin.endpoint {} hread] at h
    have hmore : 0 < more.length := List.length_pos_iff.mpr hne
    have hlen := congrArg List.length hpay
    rw [List.length_append] at hlen
    cases o with
    | data buffer =>
        replace hlt : buffer.length < 2 ^ 32 := hlt
        replace hlen : buffer.length = got.length + more.length := hlen
        refine recvData_short Robin.endpoint false _ ?_ h
        change got.length < buffer.length % 2 ^ 32
        rw [Nat.mod_eq_of_lt hlt]
        omega
    | ping => exact absurd hlen (by simp only [Outgoing.frame, List.length_nil]; omega)
    | close => exact absurd hlen (by simp only [Outgoing.frame, List.length_nil]; omega)
  rcases List.append_eq_append_iff.mp hb with ⟨missing, hhdr, hmore⟩ | ⟨got, hsrc, hpay⟩
  · by_cases hmissing : missing = []
    · subst hmissing
      exact hpayload [] (by rw [hhdr]; simp) (by rw [hmore]; rfl)
    · have hd : rfcHead (src.bytes ++ missing) = some (o.frame.header, []) := by
        rw [← hhdr, ← List.append_nil o.frame.header.makeFrameHeader]
        exact rfcHead_makeFrameHeader o.frame.header [] hfits rfl
      simp only [Robin.recvLoop, recvLoop, Option.bind_eq_bind, Option.bind_eq_some_iff] at h
      obtain ⟨⟨ok, h', src'⟩, hread, hr⟩ := h
      obtain rfl := Robin.readFrameHead_short hmissing hd rfl hread
      rw [if_neg Bool.false_ne_true] at hr
      obtain rfl := Option.some.inj hr
      exact ⟨rfl, rfl⟩
  · exact hpayload got hsrc hpay

/-- A call on a whole frame. -/
theorem recvLoop_whole {o : Outgoing} (hlt : o.frame.payload.length < 2 ^ 32)
    {rest : List UInt8} {src : Source} (hb : src.bytes = o.frame.bytes ++ rest)
    {r : LoopResult (Option (List UInt8))} (h : Robin.recvLoop {} src = some r) :
    (r.ok = true ∧ r.state = {} ∧ r.events = (buffers [o]).map some ∧ r.src.bytes = rest ∧
        r.src.ending = src.ending) ∨
      (r.ok = false ∧ ∃ j, r.events = List.replicate j none) := by
  cases o with
  | data buffer =>
      have hcall := Robin.endpoint_reads.item {} (i := .first false true buffer) hlt trivial hb
      rw [Item.step, dataStep] at hcall
      by_cases hsize : 0 < buffer.length ∧ buffer.length < 2 ^ 31
      · rw [if_pos hsize, if_pos rfl] at hcall
        obtain ⟨cuts, -, hcall⟩ := hcall
        obtain rfl := Option.some.inj (hcall.symm.trans h)
        exact .inl ⟨rfl, rfl, rfl, rfl, rfl⟩
      · rw [if_neg hsize] at hcall
        obtain ⟨r', hcall, hok, hev⟩ := hcall
        obtain rfl := Option.some.inj (hcall.symm.trans h)
        exact .inr ⟨hok, 0, hev⟩
  | ping =>
      obtain ⟨cuts, -, hcall⟩ :=
        Robin.endpoint_reads.item {} (i := .control .ping) hlt trivial hb
      obtain rfl := Option.some.inj (hcall.symm.trans h)
      exact .inl ⟨rfl, rfl, rfl, rfl, rfl⟩
  | close =>
      have hd : rfcHead src.bytes = some (Outgoing.close.frame.header, [] ++ rest) := by
        rw [hb]
        exact WsFrame.rfcHead_bytes (by omega) rest
      obtain ⟨cuts, -, hread⟩ := Robin.readFrameHead_unmasked hd rfl
      rw [Robin.recvLoop, recvLoop_head Robin.endpoint {} hread] at h
      obtain rfl := Option.some.inj h
      exact .inr ⟨rfl, 1, rfl⟩

/-- **A call on any beginning of the stream**: it takes the next frame whole and pushes its
buffer, if it has one, or it ends the loop and pushes nothing but nulls. -/
theorem recvLoop_outgoing {o : Outgoing} (hlt : o.frame.payload.length < 2 ^ 32)
    {tail : List UInt8} {src : Source} (hpre : src.bytes <+: o.frame.bytes ++ tail)
    {r : LoopResult (Option (List UInt8))} (h : Robin.recvLoop {} src = some r) :
    (r.ok = true ∧ r.state = {} ∧ r.events = (buffers [o]).map some ∧
        src.bytes = o.frame.bytes ++ r.src.bytes ∧ r.src.ending = src.ending) ∨
      (r.ok = false ∧ ∃ j, r.events = List.replicate j none) := by
  have hframe : o.frame.bytes <+: o.frame.bytes ++ tail := List.prefix_append _ _
  by_cases hlen : o.frame.bytes.length ≤ src.bytes.length
  · obtain ⟨rest, hb⟩ := List.prefix_of_prefix_length_le hframe hpre hlen
    rcases recvLoop_whole hlt hb.symm h with ⟨hok, hst, hev, hrest, hend⟩ | hfalse
    · exact .inl ⟨hok, hst, hev, by rw [hrest, hb], hend⟩
    · exact .inr hfalse
  · obtain ⟨more, hb⟩ := List.prefix_of_prefix_length_le hpre hframe (by omega)
    have hne : more ≠ [] := by
      rintro rfl
      rw [List.append_nil] at hb
      rw [hb] at hlen
      exact hlen (le_refl _)
    obtain ⟨hok, hev⟩ := recvLoop_part hlt hne hb h
    exact .inr ⟨hok, 0, hev⟩

/-- A call on a stream with nothing in it waits or answers `false`. -/
theorem recvLoop_nothing {src : Source} (hb : src.bytes = [])
    {r : LoopResult (Option (List UInt8))} (h : Robin.recvLoop {} src = some r) :
    r.ok = false ∧ r.events = [] :=
  recvLoop_part (o := .ping) (by decide) (by decide : Outgoing.ping.frame.bytes ≠ [])
    (by rw [hb]; rfl) h

/-! ### Delivery -/

/-- The tasks that wait in the queue. -/
def Sender.waiting (a : Sender) : List Outgoing := a.queue.filterMap id

/-- The part of the frame in progress that is still to be written. -/
def Sender.unwritten (a : Sender) : List UInt8 :=
  match a.pc with
  | .body payload => payload
  | _ => []

/-- The account of the sending side: the buffers of the sends are those of the frames that
were started, those that were dropped on the closed descriptor, and those that wait, in this
order; and what was written are the frames that were started, all of the last one or, once
the descriptor is closed, a part of it. -/
structure SenderOk (a : Sender) : Prop where
  sent : ∃ dropped, a.sent = buffers (a.started ++ (dropped ++ a.waiting)) ∧
    (a.closed = false → dropped = [])
  short : ∀ o ∈ a.started ++ a.waiting, o.frame.payload.length < 2 ^ 32
  wrote : a.wrote <+: bytesOf a.started
  whole : a.closed = false → a.wrote ++ a.unwritten = bytesOf a.started

/-- The account of the receiving side: it has taken the frames `done`, the first ones that
were started, and pushed their buffers; nulls follow only behind the loop, and while the loop
runs the rest of the stream is what was written behind these frames. -/
structure ReceiverOk (s : State) : Prop where
  pushed : ∃ done j, done <+: s.a.started ∧
    s.b.inbox = (buffers done).map some ++ List.replicate j none ∧
    (s.b.pc = .reading → j = 0 ∧ s.b.loop = {} ∧
      bytesOf done ++ s.b.src.bytes <+: s.a.wrote ∧
      (s.b.src.ending = none → bytesOf done ++ s.b.src.bytes = s.a.wrote))
  closed : s.b.closed = true → s.b.pc ≠ .reading

/-- Queuing a task, with the record of the buffer if it is one of `send`. -/
theorem SenderOk.addTask {a : Sender} (ha : SenderOk a) {o : Outgoing}
    (hlt : o.frame.payload.length < 2 ^ 32) :
    SenderOk { a.addTask o with sent := a.sent ++ buffers [o] } := by
  have hwait : (Sender.waiting { a.addTask o with sent := a.sent ++ buffers [o] })
      = a.waiting ++ [o] := by
    simp [Sender.waiting, Sender.addTask, List.filterMap_append]
  obtain ⟨dropped, hsent, hopen⟩ := ha.sent
  refine ⟨⟨dropped, ?_, hopen⟩, ?_, ha.wrote, ha.whole⟩
  · rw [hwait]
    change a.sent ++ buffers [o] = buffers (a.started ++ (dropped ++ (a.waiting ++ [o])))
    rw [hsent]
    simp only [buffers_append, List.append_assoc]
  · intro o' ho'
    rw [hwait] at ho'
    have ho'' : o' ∈ a.started ++ a.waiting ∨ o' = o := by
      simpa [Sender.addTask, or_assoc] using ho'
    rcases ho'' with h | rfl
    · exact ha.short o' h
    · exact hlt

/-- A task that is not one of `send` leaves the record as it is. -/
theorem SenderOk.addControl {a : Sender} (ha : SenderOk a) {o : Outgoing}
    (ho : o.buffer? = none) (hlt : o.frame.payload.length < 2 ^ 32) :
    SenderOk (a.addTask o) := by
  have h := ha.addTask hlt
  have hnone : buffers [o] = [] := by simp [buffers, ho]
  rw [hnone, List.append_nil] at h
  exact h

/-- Closing the connection. -/
theorem SenderOk.closeWcConnection {a : Sender} (ha : SenderOk a) :
    SenderOk a.closeWcConnection := by
  rw [Sender.closeWcConnection]
  split_ifs with hc
  · exact ha
  · obtain ⟨dropped, hsent, -⟩ := ha.sent
    have hwait : Sender.waiting
        { a with closed := true, remoteClose := true, queue := a.queue ++ [none] }
          = a.waiting := by
      simp [Sender.waiting, List.filterMap_append]
    refine ⟨⟨dropped, ?_, nofun⟩, ?_, ha.wrote, nofun⟩
    · rw [hwait]
      exact hsent
    · rw [hwait]
      exact ha.short

/-- The sending side with a task taken from the queue and its frame begun. -/
def Sender.start (a : Sender) (o : Outgoing) (queue : List (Option Outgoing)) : Sender :=
  { a with
    queue := queue
    pc := if o.frame.payload = [] then .idle else .body o.frame.payload
    started := a.started ++ [o] }

/-- What the sender fiber does with its next task: a null ends it, a task on a closed
descriptor is dropped, any other is started. -/
theorem popTask_cases {s s' : State} (h : popTask s = some s') :
    s.a.pc = .idle ∧
      ((∃ queue, s.a.queue = none :: queue ∧
          s' = { s with a := { s.a with queue := queue, pc := .exited } }) ∨
        (∃ o queue, s.a.queue = some o :: queue ∧ s.a.closed = true ∧
          s' = { s with a := { s.a with queue := queue } }) ∨
        (∃ o queue, s.a.queue = some o :: queue ∧ s.a.closed = false ∧
          s' = ({ s with a := s.a.start o queue } : State).write
            o.frame.header.makeFrameHeader)) := by
  rw [popTask.eq_def] at h
  split at h
  · rename_i queue hpc hq
    exact ⟨hpc, .inl ⟨queue, hq, (Option.some.inj h).symm⟩⟩
  · rename_i o queue hpc hq
    refine ⟨hpc, .inr ?_⟩
    cases hc : s.a.closed with
    | true =>
        rw [hc, if_pos rfl] at h
        exact .inl ⟨o, queue, hq, rfl, (Option.some.inj h).symm⟩
    | false =>
        rw [hc, if_neg Bool.false_ne_true] at h
        exact .inr ⟨o, queue, hq, rfl, (Option.some.inj h).symm⟩
  · exact absurd h (by simp)

/-- The payload of the frame in progress is written, or the write fails. -/
theorem writeBody_cases {s s' : State} (h : writeBody s = some s') :
    ∃ payload, s.a.pc = .body payload ∧
      ((s.a.closed = true ∧ s' = { s with a := { s.a with pc := .idle } }) ∨
        (s.a.closed = false ∧
          s' = ({ s with a := { s.a with pc := .idle } } : State).write payload)) := by
  rw [writeBody.eq_def] at h
  split at h
  · rename_i payload hpc
    refine ⟨payload, hpc, ?_⟩
    cases hc : s.a.closed with
    | true =>
        rw [hc, if_pos rfl] at h
        exact .inl ⟨rfl, (Option.some.inj h).symm⟩
    | false =>
        rw [hc, if_neg Bool.false_ne_true] at h
        exact .inr ⟨rfl, (Option.some.inj h).symm⟩
  · exact absurd h (by simp)

/-- Taking the next task keeps the account of the sending side. -/
theorem SenderOk.popTask {s s' : State} (ha : SenderOk s.a) (h : popTask s = some s') :
    SenderOk s'.a := by
  obtain ⟨hpc, hcase⟩ := popTask_cases h
  obtain ⟨dropped, hsent, hopen⟩ := ha.sent
  have hidle : s.a.unwritten = [] := by simp [Sender.unwritten, hpc]
  rcases hcase with ⟨queue, hq, rfl⟩ | ⟨o, queue, hq, hc, rfl⟩ | ⟨o, queue, hq, hc, rfl⟩
  · have hwait : s.a.waiting = queue.filterMap id := by simp [Sender.waiting, hq]
    have hshort := ha.short
    rw [hwait] at hsent hshort
    refine ⟨⟨dropped, hsent, hopen⟩, hshort, ha.wrote, fun hc => ?_⟩
    have hwhole := ha.whole hc
    rwa [hidle] at hwhole
  · have hwait : s.a.waiting = o :: queue.filterMap id := by simp [Sender.waiting, hq]
    refine ⟨⟨dropped ++ [o], ?_, fun h => Bool.noConfusion (hc.symm.trans h)⟩,
      fun o' ho' => ?_, ha.wrote, fun h => Bool.noConfusion (hc.symm.trans h)⟩
    · change s.a.sent = buffers (s.a.started ++ (dropped ++ [o] ++ queue.filterMap id))
      rw [hsent, hwait]
      simp
    · refine ha.short o' ?_
      rw [hwait, List.mem_append, List.mem_cons]
      rcases List.mem_append.mp ho' with h | h
      · exact .inl h
      · exact .inr (.inr h)
  · have hwait : s.a.waiting = o :: queue.filterMap id := by simp [Sender.waiting, hq]
    have hwhole := ha.whole hc
    rw [hidle, List.append_nil] at hwhole
    refine ⟨⟨[], ?_, fun _ => rfl⟩, ?_, ?_, fun _ => ?_⟩
    · rw [hopen hc] at hsent
      change s.a.sent = buffers (s.a.started ++ [o] ++ ([] ++ queue.filterMap id))
      rw [hsent, hwait]
      simp
    · intro o' ho'
      refine ha.short o' ?_
      rw [hwait]
      simpa [State.write, Sender.start, Sender.waiting] using ho'
    · change s.a.wrote ++ o.frame.header.makeFrameHeader <+: bytesOf (s.a.started ++ [o])
      rw [hwhole, bytesOf_append, bytesOf_singleton, List.prefix_append_right_inj]
      exact List.prefix_append _ _
    · have hun : (({ s with a := s.a.start o queue } : State).write
          o.frame.header.makeFrameHeader).a.unwritten = o.frame.payload := by
        change (s.a.start o queue).unwritten = _
        by_cases hp : o.frame.payload = []
        · simp [Sender.unwritten, Sender.start, hp]
        · simp [Sender.unwritten, Sender.start, hp]
      rw [hun]
      change s.a.wrote ++ o.frame.header.makeFrameHeader ++ o.frame.payload
        = bytesOf (s.a.started ++ [o])
      rw [hwhole, bytesOf_append, bytesOf_singleton, WsFrame.bytes, List.append_assoc]

/-- Writing the payload keeps the account of the sending side. -/
theorem SenderOk.writeBody {s s' : State} (ha : SenderOk s.a) (h : writeBody s = some s') :
    SenderOk s'.a := by
  obtain ⟨payload, hpc, ⟨hc, rfl⟩ | ⟨hc, rfl⟩⟩ := writeBody_cases h
  · exact ⟨ha.sent, ha.short, ha.wrote, fun h => Bool.noConfusion (hc.symm.trans h)⟩
  · have hwhole := ha.whole hc
    have hun : s.a.unwritten = payload := by simp [Sender.unwritten, hpc]
    rw [hun] at hwhole
    have hnow : Sender.wrote (({ s with a := { s.a with pc := .idle } } : State).write payload).a
        = bytesOf s.a.started := hwhole
    refine ⟨ha.sent, ha.short, ?_, fun _ => ?_⟩
    · rw [hnow]
      exact List.prefix_rfl
    · rw [hnow]
      exact List.append_nil _

/-- The account of the receiving side when the sending side has begun more frames. -/
theorem ReceiverOk.ofSender {s : State} (hb : ReceiverOk s) {a' : Sender}
    (hw : a'.wrote = s.a.wrote) (hst : s.a.started <+: a'.started) :
    ReceiverOk { s with a := a' } := by
  obtain ⟨done, j, hdone, hinbox, hread⟩ := hb.pushed
  refine ⟨⟨done, j, hdone.trans hst, hinbox, fun hpc => ?_⟩, hb.closed⟩
  rw [hw]
  exact hread hpc

/-- The account of the receiving side when more bytes are written. -/
theorem ReceiverOk.write {s : State} (hb : ReceiverOk s) (bytes : List UInt8) :
    ReceiverOk (s.write bytes) := by
  obtain ⟨done, j, hdone, hinbox, hread⟩ := hb.pushed
  rw [State.write]
  split_ifs with hend
  · refine ⟨⟨done, j, hdone, hinbox, fun hpc => ?_⟩, hb.closed⟩
    obtain ⟨hj, hloop, -, heq⟩ := hread hpc
    have hall : bytesOf done ++ (s.b.src.bytes ++ bytes) = s.a.wrote ++ bytes := by
      rw [← List.append_assoc, heq hend]
    exact ⟨hj, hloop, ⟨[], (List.append_nil _).trans hall⟩, fun _ => hall⟩
  · refine ⟨⟨done, j, hdone, hinbox, fun hpc => ?_⟩, hb.closed⟩
    obtain ⟨hj, hloop, hpre, -⟩ := hread hpc
    exact ⟨hj, hloop, hpre.trans (List.prefix_append _ _), fun h => absurd h hend⟩

/-- The account of the receiving side when the stream to it changes: in its segmentation, or
by ending after any number of bytes. -/
theorem ReceiverOk.ofSource {s : State} (hb : ReceiverOk s) {src' : Source}
    (hpre : src'.bytes <+: s.b.src.bytes)
    (hopen : src'.ending = none → s.b.src.ending = none ∧ src'.bytes = s.b.src.bytes) :
    ReceiverOk { s with b := { s.b with src := src' } } := by
  obtain ⟨done, j, hdone, hinbox, hread⟩ := hb.pushed
  refine ⟨⟨done, j, hdone, hinbox, fun hpc => ?_⟩, hb.closed⟩
  obtain ⟨hj, hloop, hwrote, heq⟩ := hread hpc
  refine ⟨hj, hloop, ?_, fun hend => ?_⟩
  · exact ((List.prefix_append_right_inj _).mpr hpre).trans hwrote
  · obtain ⟨hend', hbytes⟩ := hopen hend
    change bytesOf done ++ src'.bytes = s.a.wrote
    rw [hbytes]
    exact heq hend'

/-- **A call of `recv_loop` in a run** takes the next frame that was started, or leaves the
loop with nothing but nulls pushed. -/
theorem ReceiverOk.recvCall {s : State} (ha : SenderOk s.a) (hb : ReceiverOk s)
    {b' : Receiver} (h : recvCall s.b = some b') : ReceiverOk { s with b := b' } := by
  obtain ⟨done, j, hdone, hinbox, hread⟩ := hb.pushed
  rw [Streaming.recvCall, Option.ite_none_right_eq_some] at h
  obtain ⟨hpc, h⟩ := h
  obtain ⟨r, hr, rfl⟩ := Option.map_eq_some_iff.mp h
  obtain ⟨rfl, hloop, hwrote, heq⟩ := hread hpc
  have hclosed : s.b.closed = false := by
    cases hc : s.b.closed with
    | false => rfl
    | true => exact absurd hpc (hb.closed hc)
  rw [hloop] at hr
  -- a call that answers `false` leaves the loop
  have hleft : r.ok = false → ∀ k, r.events = List.replicate k none →
      ReceiverOk { s with b := { s.b with
        loop := r.state, src := r.src, inbox := s.b.inbox ++ r.events,
        pc := if r.ok then .reading else .leaving } } := by
    intro hok k hev
    refine ⟨⟨done, k, hdone, ?_, ?_⟩, fun hc => ?_⟩
    · change s.b.inbox ++ r.events = _
      rw [hinbox, hev, List.replicate_zero, List.append_nil]
    · rw [hok]
      exact nofun
    · exact Bool.noConfusion (hclosed.symm.trans hc)
  obtain ⟨rest, hrest⟩ := hdone
  have hsrc : s.b.src.bytes <+: bytesOf rest := by
    have hbytes := hwrote.trans ha.wrote
    rw [← hrest, bytesOf_append] at hbytes
    exact (List.prefix_append_right_inj _).mp hbytes
  cases rest with
  | nil =>
      obtain ⟨hok, hev⟩ := recvLoop_nothing (List.prefix_nil.mp hsrc) hr
      exact hleft hok 0 hev
  | cons o rest =>
      have hlt : o.frame.payload.length < 2 ^ 32 := by
        refine ha.short o (List.mem_append_left _ ?_)
        rw [← hrest]
        simp
      have hcons : bytesOf (o :: rest) = o.frame.bytes ++ bytesOf rest := by simp [bytesOf]
      rw [hcons] at hsrc
      rcases recvLoop_outgoing hlt hsrc hr with ⟨hok, hst, hev, htaken, hend⟩ | ⟨hok, k, hev⟩
      · have hmoved : bytesOf (done ++ [o]) ++ r.src.bytes = bytesOf done ++ s.b.src.bytes := by
          rw [htaken, bytesOf_append, bytesOf_singleton, List.append_assoc]
        refine ⟨⟨done ++ [o], 0, ⟨rest, ?_⟩, ?_, fun _ => ⟨rfl, hst, ?_, fun hopen => ?_⟩⟩,
          fun hc => Bool.noConfusion (hclosed.symm.trans hc)⟩
        · rw [List.append_assoc]
          exact hrest
        · change s.b.inbox ++ r.events = _
          rw [hinbox, hev, buffers_append, List.map_append]
          simp
        · change bytesOf (done ++ [o]) ++ r.src.bytes <+: s.a.wrote
          rw [hmoved]
          exact hwrote
        · change bytesOf (done ++ [o]) ++ r.src.bytes = s.a.wrote
          rw [hmoved]
          exact heq (hend.symm.trans hopen)
      · exact hleft hok k hev

/-- Closing the receiving side behind its loop pushes at most one more null. -/
theorem ReceiverOk.closeWcConnection {s : State} (hb : ReceiverOk s) {pc : ReceiverPc}
    (hpc : pc ≠ .reading) :
    ReceiverOk { s with b := { s.b.closeWcConnection with pc := pc } } := by
  obtain ⟨done, j, hdone, hinbox, -⟩ := hb.pushed
  refine ⟨?_, fun _ => hpc⟩
  rw [Receiver.closeWcConnection]
  split_ifs with hc
  · exact ⟨done, j, hdone, hinbox, fun h => absurd h hpc⟩
  · refine ⟨done, j + 1, hdone, ?_, fun h => absurd h hpc⟩
    change s.b.inbox ++ [none] = _
    rw [hinbox, List.replicate_succ', List.append_assoc]

/-- The account of the whole system. -/
structure Inv (s : State) : Prop where
  sender : SenderOk s.a
  receiver : ReceiverOk s

theorem inv_init : Inv {} := by
  refine ⟨⟨⟨[], rfl, fun _ => rfl⟩, nofun, List.prefix_rfl, fun _ => rfl⟩, ?_⟩
  exact ⟨⟨[], 0, List.prefix_rfl, rfl, fun _ => ⟨rfl, rfl, List.prefix_rfl, fun _ => rfl⟩⟩, nofun⟩

/-- **Every action keeps the account.** -/
theorem Inv.step {M D : Type} {lib : Libraries M D} (hdoc : lib.Documented) {s s' : State}
    {act : Action M} (hinv : Inv s) (h : step lib s act = some s') : Inv s' := by
  obtain ⟨ha, hb⟩ := hinv
  cases act with
  | send msg room =>
      obtain ⟨a', hsend, rfl⟩ := Option.map_eq_some_iff.mp h
      rw [Sender.send, Option.ite_none_left_eq_some] at hsend
      obtain ⟨buffer, hbuf, rfl⟩ := Option.map_eq_some_iff.mp hsend.2
      have hlt := streamingEncode_length hdoc (Encoding.made?_eq_some.mp hbuf)
      exact ⟨ha.addTask (o := .data buffer) hlt, hb.ofSender rfl List.prefix_rfl⟩
  | ping =>
      obtain rfl := Option.some.inj h
      exact ⟨ha.addControl rfl (by decide), hb.ofSender rfl List.prefix_rfl⟩
  | closeStreaming =>
      obtain rfl := Option.some.inj h
      exact ⟨ha.addControl rfl (by decide), hb.ofSender rfl List.prefix_rfl⟩
  | remoteClose =>
      obtain rfl := Option.some.inj h
      exact ⟨⟨ha.sent, ha.short, ha.wrote, ha.whole⟩, hb.ofSender rfl List.prefix_rfl⟩
  | closeSender =>
      obtain rfl := Option.some.inj h
      refine ⟨ha.closeWcConnection, hb.ofSender ?_ ?_⟩
      · rw [Sender.closeWcConnection]
        split_ifs <;> rfl
      · rw [Sender.closeWcConnection]
        split_ifs <;> exact List.prefix_rfl
  | pop =>
      refine ⟨ha.popTask h, ?_⟩
      obtain ⟨-, ⟨queue, -, rfl⟩ | ⟨o, queue, -, -, rfl⟩ | ⟨o, queue, -, -, rfl⟩⟩ :=
        popTask_cases h
      · exact hb.ofSender rfl List.prefix_rfl
      · exact hb.ofSender rfl List.prefix_rfl
      · have hstart : ReceiverOk { s with a := s.a.start o queue } :=
          hb.ofSender rfl (List.prefix_append _ _)
        exact hstart.write _
  | writeBody =>
      refine ⟨ha.writeBody h, ?_⟩
      obtain ⟨payload, -, ⟨-, rfl⟩ | ⟨-, rfl⟩⟩ := writeBody_cases h
      · exact hb.ofSender rfl List.prefix_rfl
      · have hidle : ReceiverOk { s with a := { s.a with pc := .idle } } :=
          hb.ofSender rfl List.prefix_rfl
        exact hidle.write payload
  | segment cuts =>
      obtain rfl := Option.some.inj h
      exact ⟨ha, hb.ofSource List.prefix_rfl fun hend => ⟨hend, rfl⟩⟩
  | sever n ending =>
      rw [Streaming.step, Option.ite_none_right_eq_some] at h
      obtain rfl := Option.some.inj h.2
      exact ⟨ha, hb.ofSource (List.take_prefix _ _) nofun⟩
  | recv =>
      obtain ⟨b', hcall, rfl⟩ := Option.map_eq_some_iff.mp h
      exact ⟨ha, hb.recvCall ha hcall⟩
  | closeReceiver =>
      rw [Streaming.step, Option.ite_none_right_eq_some] at h
      obtain ⟨hpc, h⟩ := h
      obtain rfl := Option.some.inj h
      refine ⟨ha, hb.closeWcConnection ?_⟩
      split_ifs with hleaving
      · exact nofun
      · exact hb.closed (hpc.resolve_left hleaving)

/-- **Delivery**: in every state reached, the buffers pushed to `inbox_` are the first ones
that `StreamingEncode` produced for the sends, each once, whole and in their order, and
behind them come only nulls. -/
theorem inbox_of_reach {M D : Type} {lib : Libraries M D} (hdoc : lib.Documented) {s : State}
    (h : Lts.Reach (step lib) Lts.always {} s) :
    ∃ bufs j, s.b.inbox = bufs.map some ++ List.replicate j none ∧ bufs <+: s.a.sent := by
  have hinv : Inv s := h.invariant Inv inv_init fun hinv _ hstep => Inv.step hdoc hinv hstep
  obtain ⟨done, j, ⟨rest, hstarted⟩, hinbox, -⟩ := hinv.receiver.pushed
  obtain ⟨dropped, hsent, -⟩ := hinv.sender.sent
  refine ⟨buffers done, j, hinbox, ?_⟩
  rw [hsent, ← hstarted, List.append_assoc, buffers_append]
  exact List.prefix_append _ _

/-- Two messages and a heartbeat are sent, then the streaming is closed; the frames arrive
byte by byte, and the receiving side has both buffers and an end marker in its inbox. -/
theorem inbox_of_two_messages :
    ∃ s, Lts.Reach (step storedLibrary) Lts.always {} s ∧
      s.b.inbox = s.a.sent.map some ++ [none] ∧ s.a.sent.length = 2 ∧
      ∃ bufs j, s.b.inbox = bufs.map some ++ List.replicate j none ∧ bufs <+: s.a.sent := by
  have hrun : ∃ s, Lts.Reach (step storedLibrary) Lts.always {} s ∧
      s.b.inbox = s.a.sent.map some ++ [none] ∧ s.a.sent.length = 2 :=
    Lts.Reach.exists_of_exec
      [.send [8, 1] 64, .ping, .send [8, 2] 64, .closeStreaming, .pop, .writeBody, .pop, .pop,
        .writeBody, .pop, .segment [1, 1, 1], .recv, .recv, .recv, .recv] (by decide +kernel)
  obtain ⟨s, hreach, hinbox, hsent⟩ := hrun
  exact ⟨s, hreach, hinbox, hsent, inbox_of_reach storedLibrary_documented hreach⟩

end Streaming

end ArchNet

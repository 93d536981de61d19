import ArchNet.FrameRoundTrip
import ArchNet.Lts

/-!
# The Frames of a Client

Every `send…` call of `WebSocketConnection`, and `closeWebsocket`, leaves a task for the sender
fiber, which runs the tasks in their order. All of them use the one websocket `ws_out_`: a task
resets it, sets up a header by hand and sends the frame. On the client's side it is to set a
masking key as well. `sendBinary(const std::string&)` does not; and `set_frame_masking_key` takes
a key of zero, which `rand()` may return, for no mask at all.

## Conventions

* The calls, the sender fiber and the owners of the buffers that were handed over by pointer take
  turns in any order (`Event`). Only the sender fiber uses `ws_out_`, and it runs one task at a
  time.
* The value that `gen_masking_key` returns is part of the event; so is the buffer that
  the pool hands out.
* A frame is on the wire unless the stream answers -1 for its header. `Frame` keeps the bytes that
  were handed to the stream and those that the stream took.

## Main results

* `Conn.sent_wire`: the bytes on the wire are those of the frames, in their order, each cut only
  where the stream cut it.
* `Conn.frames_masked_iff`: **when all the frames of a run are masked** — exactly when no task of
  `sendBinary(const std::string&)` is run and no key that is drawn is zero.
-/

open Bytes

namespace ArchNet

open Buffer

/-- The stream answers the next `send` with -1. -/
def Outlet.Refuses (out : Outlet) : Prop := out.answers.head? = some none

instance (out : Outlet) : Decidable out.Refuses :=
  inferInstanceAs (Decidable (out.answers.head? = some none))

/-- A `send` that is refused writes nothing. -/
theorem Outlet.send_refused {out : Outlet} (h : out.Refuses) (bytes : List UInt8) :
    out.send bytes = (-1, { out with answers := out.answers.tail }) := by
  obtain ⟨written, answers⟩ := out
  obtain ⟨rest, rfl⟩ : ∃ rest, answers = none :: rest := List.head?_eq_some_iff.mp h
  rfl

/-- Any other writes some of the bytes from the front. -/
theorem Outlet.send_taken {out : Outlet} (h : ¬ out.Refuses) (bytes : List UInt8) :
    ∃ k n : ℕ, out.send bytes = ((n : ℤ),
      { written := out.written ++ bytes.take k, answers := out.answers.tail }) := by
  obtain ⟨written, answers⟩ := out
  rcases answers with - | ⟨- | k, rest⟩
  · exact ⟨bytes.length, _, rfl⟩
  · exact absurd rfl h
  · exact ⟨k, _, rfl⟩

/-- In either case it writes some of the bytes from the front. -/
theorem Outlet.send_written (out : Outlet) (bytes : List UInt8) :
    ∃ k, (out.send bytes).2.written = out.written ++ bytes.take k := by
  by_cases h : out.Refuses
  · exact ⟨0, by rw [send_refused h, List.take_zero, List.append_nil]⟩
  · obtain ⟨k, n, hsend⟩ := send_taken h bytes
    exact ⟨k, by rw [hsend]⟩

namespace Coin

namespace Websocket

/-- `websocket::reset`. -/
def reset (_ : Websocket) : Websocket := { header := .reset, headerBuf := [], headerSent := false }

/-- What `send_frame_data` hands to the stream for the given data, once the header is made. -/
def maskedPayload (ws : Websocket) (data : List UInt8) : List UInt8 :=
  if ws.header.mask then xorMask ws.header.maskingKey data.length data else data

/-- The websocket after the header has been made. -/
def started (ws : Websocket) : Websocket := { ws with headerSent := true }.makeFrameHeader

@[simp] theorem started_headerBuf (ws : Websocket) :
    ws.started.headerBuf = ws.header.makeFrameHeader := rfl

/-- The payload under the bytes of the key that the header ends with. -/
theorem started_maskedPayload (ws : Websocket) (data : List UInt8) :
    ws.started.maskedPayload data =
      if ws.header.mask then xorMask ws.header.maskingKey.reverse data.length data else data := by
  rw [maskedPayload, started, makeFrameHeader_mask]
  cases h : ws.header.mask with
  | false => rfl
  | true => rw [@makeFrameHeader_maskingKey { ws with headerSent := true } h]

/-- A fresh frame whose header the stream refuses. -/
theorem sendFrameData_refused {ws : Websocket} (hfresh : ws.headerSent = false)
    (payload : Option Buffer) {out : Outlet} (hout : out.Refuses) :
    ws.sendFrameData payload out =
      .ok (false, ws.started, payload, { out with answers := out.answers.tail }) := by
  rw [sendFrameData, sendHeader]
  simp only [hfresh, Bool.false_eq_true, if_false, Outlet.send_refused hout]
  rfl

/-- The header of a fresh frame on a stream that does not refuse it. -/
theorem sendHeader_taken {ws : Websocket} (hfresh : ws.headerSent = false) {out : Outlet}
    (hout : ¬ out.Refuses) :
    ∃ k out', ws.sendHeader out = (true, ws.started, out') ∧
      out'.written = out.written ++ ws.header.makeFrameHeader.take k := by
  obtain ⟨k, n, hsend⟩ := Outlet.send_taken hout ws.header.makeFrameHeader
  have hn : (n : ℤ) ≠ -1 := by omega
  change out.send ws.started.headerBuf = _ at hsend
  refine ⟨k, ⟨out.written ++ ws.header.makeFrameHeader.take k, out.answers.tail⟩, ?_, rfl⟩
  simp only [started] at hsend
  simp only [sendHeader, hfresh, Bool.false_eq_true, if_false, hsend, decide_eq_true hn, started]

/-- **What a fresh frame puts on any stream**: some of the header from its front, and some of the
masked payload from its front. -/
theorem sendFrameData_wire {ws : Websocket} (hfresh : ws.headerSent = false) {b : Buffer}
    (hwf : b.WF) (out : Outlet) :
    ∃ ok b' out' k k', ws.sendFrameData (some b) out = .ok (ok, ws.started, some b', out') ∧
      b'.WF ∧ out'.written = out.written ++
        (ws.header.makeFrameHeader.take k ++ (ws.started.maskedPayload b.unread).take k') := by
  by_cases hout : out.Refuses
  · exact ⟨_, _, _, 0, 0, sendFrameData_refused hfresh (some b) hout, hwf, by simp⟩
  obtain ⟨k, out₁, hhead, hwritten₁⟩ := sendHeader_taken hfresh hout
  have hsize : b.length = .ok b.unread.length := by rw [hwf.length_eq, hwf.length_unread]
  rw [sendFrameData, hhead]
  simp only [if_true, hsize, ok_bind]
  by_cases hzero : b.unread.length = 0
  · rw [if_pos hzero]
    exact ⟨_, _, _, k, 0, rfl, hwf, by rw [hwritten₁, List.take_zero, List.append_nil]⟩
  rw [if_neg hzero]
  -- the payload under the mask, still in the caller's buffer
  obtain ⟨hwf₁, hun₁⟩ := hwf.maskData_if ws.started.header.mask ws.started.header.maskingKey
  change _ = ws.started.maskedPayload b.unread at hun₁
  generalize (if ws.started.header.mask then b.maskData ws.started.header.maskingKey
    b.unread.length else b) = b₁ at hwf₁ hun₁ ⊢
  have hlen : b₁.unread.length = b.unread.length := by
    rw [hun₁, maskedPayload]
    split_ifs
    · exact length_xorMask ..
    · rfl
  have hspan : span b₁.buffer b₁.readIndex b.unread.length = b₁.unread := by
    rw [← hlen, hwf₁.length_unread]
    rfl
  rw [hspan, hun₁]
  obtain ⟨k', hwritten⟩ := out₁.send_written (ws.started.maskedPayload b.unread)
  rw [hwritten₁, List.append_assoc] at hwritten
  generalize out₁.send (ws.started.maskedPayload b.unread) = res at hwritten ⊢
  obtain ⟨ret, out'⟩ := res
  by_cases hret : ret = -1
  · exact ⟨false, b₁, out', k, k', by rw [if_pos hret]; rfl, hwf₁, hwritten⟩
  · by_cases hpos : 0 < ret
    · obtain ⟨b', hskip, hwf', -⟩ := hwf₁.skip ret.toNat
      refine ⟨true, b', out', k, k', ?_, hwf', hwritten⟩
      simp only [if_neg hret, if_pos hpos, hskip, ok_bind]
      rfl
    · exact ⟨true, b₁, out', k, k', by simp only [if_neg hret, if_neg hpos]; rfl, hwf₁, hwritten⟩

end Websocket

/-! ### The connection -/

/-- A buffer as its owner may hand it over. -/
structure OwnedBuffer where
  buffer : Buffer
  wf : buffer.WF

/-- A buffer as the pool hands it out, in any state. -/
structure PooledBuffer extends OwnedBuffer where
  small : buffer.capacity < 2 ^ 62

/-- The bytes of a `std::string`. -/
structure Text where
  bytes : List UInt8
  small : bytes.length < 2 ^ 62

/-- The calls of a `WebSocketConnection` that send; a buffer that is handed over by pointer is
named by a number. -/
inductive Call
  | sendBinary (data : Text)
  | sendBinaryBuffer (buffer : ℕ)
  | sendTextBuffer (buffer : ℕ)
  | sendText (text : Text)
  | sendPong (data : Text)
  | sendPing (data : Text)
  | closeWebsocket

/-- Where the payload of a task lies: in a buffer of the pool, or in one that was handed over. -/
inductive Payload
  | pooled (b : Buffer)
  | handed (buffer : ℕ)

/-- A task of the sender fiber. `setsKey` tells whether it has the line
`if (!server_side_) ws_out_->set_frame_masking_key(…)`. -/
structure Task where
  opcode : Opcode
  setsKey : Bool
  payload : Payload

/-- `Get()`, `Reset()` and `Append(data)`. -/
def PooledBuffer.fill (pooled : PooledBuffer) (data : List UInt8) (junk : ℕ → UInt8) :
    Except Assertion Payload := do
  let b ← pooled.buffer.reset.write data junk
  return .pooled b

/-- The task that a call leaves for the sender fiber. That of `closeWebsocket` takes its buffer
from the pool when it is run, and leaves it empty. -/
def Call.task (pooled : PooledBuffer) (junk : ℕ → UInt8) : Call → Except Assertion Task
  | .sendBinary data => return ⟨.binary, false, ← pooled.fill data.bytes junk⟩
  | .sendBinaryBuffer b => return ⟨.binary, true, .handed b⟩
  | .sendTextBuffer b => return ⟨.text, true, .handed b⟩
  | .sendText text => return ⟨.text, true, ← pooled.fill text.bytes junk⟩
  | .sendPong data => return ⟨.pong, true, ← pooled.fill data.bytes junk⟩
  | .sendPing data => return ⟨.ping, true, ← pooled.fill data.bytes junk⟩
  | .closeWebsocket => return ⟨.close, true, .pooled pooled.buffer.reset⟩

/-- A frame on the wire: the data it was made for, the header and the payload that were handed to
the stream, and the bytes that the stream took. -/
structure Frame where
  data : List UInt8
  header : List UInt8
  payload : List UInt8
  wire : List UInt8
  deriving DecidableEq, Repr

/-- **The frame is masked**: its header has the mask bit, and its payload is the data under the
key that the header carries. -/
def Frame.Masked (fr : Frame) : Prop :=
  ∃ hr ∈ rfcHead fr.header, hr.2 = [] ∧ hr.1.mask = true ∧
    fr.payload = xorMask hr.1.maskingKey fr.data.length fr.data

instance (fr : Frame) : Decidable fr.Masked := by
  unfold Frame.Masked; infer_instance

/-- A `WebSocketConnection` as far as sending is concerned, the buffers that its callers handed
over, what the stream offers, and the frames so far. -/
structure Conn where
  serverSide : Bool
  wsOut : Websocket := {}
  senderChan : List Task := []
  buffers : ℕ → Buffer
  out : Outlet
  sent : List Frame := []

/-- The header that a task sets up in the shared websocket. -/
def Task.setUp (t : Task) (serverSide : Bool) (ws : Websocket) (size : ℕ) (key : UInt32) :
    Websocket :=
  let ws := ((ws.reset.setFrameOpcode t.opcode).setFrameFin true).setFramePayloadLen size
  if t.setsKey && !serverSide then ws.setFrameMaskingKey key else ws

/-- What can happen: a call, with the buffer that the pool would give it; the owner of a buffer
changes it; the sender fiber runs its next task, in which `gen_masking_key` returns `key`. -/
inductive Event
  | call (c : Call) (pooled : PooledBuffer) (junk : ℕ → UInt8)
  | touch (buffer : ℕ) (contents : OwnedBuffer)
  | run (key : UInt32)

namespace Conn

/-- The buffer that a task sends from. -/
def payloadOf (s : Conn) (t : Task) : Buffer :=
  match t.payload with
  | .pooled b => b
  | .handed i => s.buffers i

/-- The buffer goes back to its owner, or to the pool. -/
def putBack (s : Conn) (t : Task) (b : Buffer) : ℕ → Buffer :=
  match t.payload with
  | .pooled _ => s.buffers
  | .handed i => Function.update s.buffers i b

/-- The sender fiber runs a task. -/
def runTask (s : Conn) (t : Task) (key : UInt32) : Except Assertion Conn := do
  let b := s.payloadOf t
  let size ← b.length
  let (_, ws, b', out) ← (t.setUp s.serverSide s.wsOut size key).sendFrameData (some b) s.out
  let frame : Frame :=
    { data := b.unread
      header := ws.headerBuf
      payload := ws.maskedPayload b.unread
      wire := out.written.drop s.out.written.length }
  return { s with
    wsOut := ws
    buffers := s.putBack t (b'.getD b)
    out := out
    sent := s.sent ++ if s.out.Refuses then [] else [frame] }

/-- One event; `none` where it is not possible or an assertion fails. -/
def step (s : Conn) : Event → Option Conn
  | .call c pooled junk =>
      (c.task pooled junk).toOption.map fun t => { s with senderChan := s.senderChan ++ [t] }
  | .touch i contents => some { s with buffers := Function.update s.buffers i contents.buffer }
  | .run key =>
      match s.senderChan with
      | [] => none
      | t :: rest => ({ s with senderChan := rest }.runTask t key).toOption

/-- A new connection, with the buffers of its callers and what its stream will answer. -/
def start (serverSide : Bool) (buffers : ℕ → OwnedBuffer) (answers : List (Option ℕ)) : Conn where
  serverSide := serverSide
  buffers := fun i => (buffers i).buffer
  out := { answers := answers }

/-- The condition on an event: a task that is run sets a key other than zero, unless the stream
refuses its header. -/
def drawsKey (s : Conn) : Event → Bool
  | .run key =>
      match s.senderChan with
      | [] => true
      | t :: _ => (t.setsKey && key != 0) || decide s.out.Refuses
  | _ => true

/-! ### What a step keeps -/

/-- The buffers are well-formed, and the bytes on the wire are those of the frames, each cut only
by the stream. -/
structure Inv (s : Conn) : Prop where
  buffers : ∀ i, (s.buffers i).WF
  tasks : ∀ t ∈ s.senderChan, ∀ b, t.payload = .pooled b → b.WF
  wire : s.out.written = (s.sent.map Frame.wire).flatten
  cut : ∀ fr ∈ s.sent, ∃ k k', fr.wire = fr.header.take k ++ fr.payload.take k'

theorem inv_start (serverSide : Bool) (buffers : ℕ → OwnedBuffer) (answers : List (Option ℕ)) :
    (start serverSide buffers answers).Inv where
  buffers i := (buffers i).wf
  tasks := by simp [start]
  wire := rfl
  cut := by simp [start]

variable {s s' : Conn}

/-- The buffer that a task sends from is well-formed. -/
theorem Inv.payloadOf (h : s.Inv) {t : Task} (ht : ∀ b, t.payload = .pooled b → b.WF) :
    (s.payloadOf t).WF := by
  rw [Conn.payloadOf]
  cases hp : t.payload with
  | pooled b => exact ht b hp
  | handed i => exact h.buffers i

theorem putBack_wf (h : ∀ i, (s.buffers i).WF) (t : Task) {b : Buffer} (hb : b.WF) (i : ℕ) :
    (s.putBack t b i).WF := by
  rw [putBack]
  cases t.payload with
  | pooled _ => exact h i
  | handed j =>
      change (Function.update s.buffers j b i).WF
      by_cases hij : i = j
      · rw [hij, Function.update_self]
        exact hb
      · rw [Function.update_of_ne hij]
        exact h i

/-- The frame of a task: the data that its buffer holds, under the header that it sets up. -/
def frameOf (s : Conn) (t : Task) (key : UInt32) : Websocket :=
  (t.setUp s.serverSide s.wsOut (s.payloadOf t).unread.length key).started

/-- **What the sender fiber does with a task.** -/
theorem runTask_cases {t : Task} {key : UInt32} (hb : (s.payloadOf t).WF)
    (h : s.runTask t key = .ok s') :
    ∃ (b' : Buffer) (out : Outlet) (k k' : ℕ), b'.WF ∧
      out.written = s.out.written ++ ((s.frameOf t key).headerBuf.take k ++
        ((s.frameOf t key).maskedPayload (s.payloadOf t).unread).take k') ∧
      (s.out.Refuses → out.written = s.out.written) ∧
      s' = { s with
        wsOut := s.frameOf t key
        buffers := s.putBack t b'
        out := out
        sent := s.sent ++ if s.out.Refuses then [] else
          [⟨(s.payloadOf t).unread, (s.frameOf t key).headerBuf,
            (s.frameOf t key).maskedPayload (s.payloadOf t).unread,
            out.written.drop s.out.written.length⟩] } := by
  have hsize : (s.payloadOf t).length = .ok (s.payloadOf t).unread.length := by
    rw [hb.length_eq, hb.length_unread]
  have hfresh : (t.setUp s.serverSide s.wsOut (s.payloadOf t).unread.length key).headerSent =
      false := by
    rw [Task.setUp]
    split_ifs <;> rfl
  obtain ⟨ok, b', out, k, k', hsend, hwf', hwritten⟩ :=
    Websocket.sendFrameData_wire hfresh hb s.out
  simp only [runTask, hsize, ok_bind, hsend, Option.getD_some] at h
  obtain rfl := (Except.ok.inj h).symm
  refine ⟨b', out, k, k', hwf', hwritten, fun hrefused => ?_, rfl⟩
  rw [Websocket.sendFrameData_refused hfresh _ hrefused] at hsend
  simp only [Except.ok.injEq, Prod.mk.injEq] at hsend
  obtain ⟨-, -, -, rfl⟩ := hsend
  rfl

/-- The header that a task sets up has the mask bit exactly when the task sets a key other than
zero. -/
theorem setUp_mask (t : Task) (serverSide : Bool) (ws : Websocket) (size : ℕ) (key : UInt32) :
    (t.setUp serverSide ws size key).header.mask = (t.setsKey && !serverSide && key != 0) := by
  rw [Task.setUp]
  by_cases h : (t.setsKey && !serverSide) = true
  · simp only [h, if_true, Bool.true_and]
    rfl
  · rw [Bool.not_eq_true] at h
    simp only [h, Bool.false_eq_true, if_false, Bool.false_and]
    rfl

theorem setUp_maskingKey_length (t : Task) (serverSide : Bool) (ws : Websocket) (size : ℕ)
    (key : UInt32) : (t.setUp serverSide ws size key).header.maskingKey.length = 4 := by
  rw [Task.setUp]
  split_ifs
  · exact (List.length_reverse ..).trans (length_beBytes ..)
  · rfl

theorem setUp_payloadLen (t : Task) (serverSide : Bool) (ws : Websocket) (size : ℕ)
    (key : UInt32) : (t.setUp serverSide ws size key).header.payloadLen = size := by
  rw [Task.setUp]
  split_ifs <;> rfl

/-- **When the frame of a task is masked.** -/
theorem frameOf_masked_iff {t : Task} {key : UInt32} (hb : (s.payloadOf t).WF)
    (wire : List UInt8) :
    (⟨(s.payloadOf t).unread, (s.frameOf t key).headerBuf,
      (s.frameOf t key).maskedPayload (s.payloadOf t).unread, wire⟩ : Frame).Masked ↔
      (t.setsKey && !s.serverSide && key != 0) = true := by
  have hlen : (s.payloadOf t).unread.length < 2 ^ 64 := by
    have h₁ := hb.length_unread
    have h₂ := hb.write_le
    have h₃ := hb.sized
    omega
  have hhead := rfcHead_makeFrameHeader
    (t.setUp s.serverSide s.wsOut (s.payloadOf t).unread.length key).header []
    (by rw [setUp_payloadLen]; exact hlen) (setUp_maskingKey_length ..)
  rw [List.append_nil] at hhead
  have hmask := setUp_mask t s.serverSide s.wsOut (s.payloadOf t).unread.length key
  simp only [Frame.Masked, frameOf, Websocket.started_headerBuf, hhead,
    Websocket.started_maskedPayload, Option.mem_some_iff, exists_eq_left', hmask, true_and]
  constructor
  · exact fun h => h.1
  · intro h
    refine ⟨h, ?_⟩
    rw [if_pos h, if_pos h]

/-- A step of the sender fiber: its first task is run. -/
theorem step_run {key : UInt32} (h : s.step (.run key) = some s') :
    ∃ t rest, s.senderChan = t :: rest ∧
      ({ s with senderChan := rest } : Conn).runTask t key = .ok s' := by
  rw [step] at h
  cases hq : s.senderChan with
  | nil => simp [hq] at h
  | cons t rest =>
      simp only [hq] at h
      cases hr : ({ s with senderChan := rest } : Conn).runTask t key with
      | error e => simp [hr, Except.toOption] at h
      | ok s₁ =>
          rw [hr] at h
          obtain rfl := Option.some.inj h
          exact ⟨t, rest, rfl, hr⟩

/-- The task of a call has a well-formed buffer. -/
theorem task_wf {c : Call} {pooled : PooledBuffer} {junk : ℕ → UInt8} {t : Task}
    (h : c.task pooled junk = .ok t) {b : Buffer} (hb : t.payload = .pooled b) : b.WF := by
  have hfill : ∀ (text : Text) {p : Payload}, pooled.fill text.bytes junk = .ok p →
      p = .pooled b → b.WF := by
    intro text p hp hpb
    obtain ⟨hreset, -⟩ := pooled.wf.reset
    obtain ⟨b', hwrite, hwf, -⟩ := hreset.write pooled.small text.small junk
    rw [PooledBuffer.fill, hwrite, ok_bind] at hp
    obtain rfl := Except.ok.inj hp
    exact Payload.pooled.inj hpb ▸ hwf
  cases c with
  | sendBinaryBuffer i => obtain rfl := Except.ok.inj h; cases hb
  | sendTextBuffer i => obtain rfl := Except.ok.inj h; cases hb
  | closeWebsocket =>
      obtain rfl := Except.ok.inj h
      exact Payload.pooled.inj hb ▸ pooled.wf.reset.1
  | sendBinary text | sendText text | sendPong text | sendPing text =>
      cases hp : pooled.fill text.bytes junk with
      | error e => simp [Call.task, hp] at h
      | ok p =>
          simp only [Call.task, hp, ok_bind] at h
          obtain rfl := Except.ok.inj h
          exact hfill text hp hb

/-- The first task comes off the queue with a well-formed buffer. -/
theorem Inv.pop (h : s.Inv) {t : Task} {rest : List Task} (hq : s.senderChan = t :: rest) :
    ({ s with senderChan := rest } : Conn).Inv ∧
      (({ s with senderChan := rest } : Conn).payloadOf t).WF := by
  have htasks : ∀ t' ∈ t :: rest, ∀ b, t'.payload = .pooled b → b.WF := hq ▸ h.tasks
  have hrest : ({ s with senderChan := rest } : Conn).Inv :=
    ⟨h.buffers, fun t' ht' => htasks t' (.tail _ ht'), h.wire, h.cut⟩
  exact ⟨hrest, hrest.payloadOf (htasks t (.head _))⟩

/-- Every step keeps the invariant, and the end that the connection is of. -/
theorem Inv.step {e : Event} (h : s.Inv) (hs : s.step e = some s') :
    s'.Inv ∧ s'.serverSide = s.serverSide := by
  cases e with
  | call c pooled junk =>
      simp only [Conn.step, Option.map_eq_some_iff] at hs
      obtain ⟨t, ht, rfl⟩ := hs
      cases hc : c.task pooled junk with
      | error e => simp [hc, Except.toOption] at ht
      | ok t' =>
          rw [hc] at ht
          obtain rfl := Option.some.inj ht
          refine ⟨⟨h.buffers, ?_, h.wire, h.cut⟩, rfl⟩
          intro t'' ht'' b hb
          obtain hold | rfl := (List.mem_append.mp ht'').imp_right List.mem_singleton.mp
          · exact h.tasks t'' hold b hb
          · exact task_wf hc hb
  | touch i contents =>
      obtain rfl := Option.some.inj hs
      refine ⟨⟨fun j => ?_, h.tasks, h.wire, h.cut⟩, rfl⟩
      by_cases hij : j = i
      · simpa [hij] using contents.wf
      · simpa [hij] using h.buffers j
  | run key =>
      obtain ⟨t, rest, hq, hrun⟩ := step_run hs
      obtain ⟨hrest, hb⟩ := h.pop hq
      obtain ⟨b', out, k, k', hwf', hout, hrefused, rfl⟩ := runTask_cases hb hrun
      refine ⟨⟨putBack_wf hrest.buffers t hwf', hrest.tasks, ?_, ?_⟩, rfl⟩
      · dsimp only at hout hrefused ⊢
        split_ifs with href
        · rw [hrefused href, h.wire, List.append_nil]
        · rw [List.map_append, List.flatten_append, ← h.wire, hout]
          simp
      · intro fr hfr
        obtain hold | hnew := List.mem_append.mp hfr
        · exact h.cut fr hold
        · split_ifs at hnew with href
          · exact absurd hnew List.not_mem_nil
          · obtain rfl := List.mem_singleton.mp hnew
            dsimp only at hout
            exact ⟨k, k', by simp [hout]⟩

/-- **The bytes on the wire**: those of the frames, in their order, each cut only where the stream
cut it. -/
theorem sent_wire {serverSide : Bool} {buffers : ℕ → OwnedBuffer} {answers : List (Option ℕ)}
    {es : List Event} (h : Lts.exec step (start serverSide buffers answers) es = some s) :
    s.out.written = (s.sent.map Frame.wire).flatten ∧
      ∀ fr ∈ s.sent, ∃ k k', fr.wire = fr.header.take k ++ fr.payload.take k' := by
  have hinv := Lts.invariant_of_exec Inv (inv_start ..) (fun h hs => (h.step hs).1) h
  exact ⟨hinv.wire, hinv.cut⟩

/-- A step of a client leaves all frames masked exactly when it meets the condition. -/
theorem masked_step_iff {e : Event} (h : s.Inv) (hclient : s.serverSide = false)
    (hs : s.step e = some s') :
    (∀ fr ∈ s'.sent, fr.Masked) ↔ (∀ fr ∈ s.sent, fr.Masked) ∧ s.drawsKey e = true := by
  cases e with
  | call c pooled junk =>
      simp only [Conn.step, Option.map_eq_some_iff] at hs
      obtain ⟨t, -, rfl⟩ := hs
      exact (and_iff_left rfl).symm
  | touch i contents =>
      obtain rfl := Option.some.inj hs
      exact (and_iff_left rfl).symm
  | run key =>
      obtain ⟨t, rest, hq, hrun⟩ := step_run hs
      obtain ⟨b', out, k, k', -, -, -, rfl⟩ := runTask_cases (h.pop hq).2 hrun
      simp only [drawsKey, hq, List.forall_mem_append]
      refine and_congr_right fun _ => ?_
      split_ifs with href
      · simp [href]
      · rw [List.forall_mem_singleton, frameOf_masked_iff (h.pop hq).2, decide_eq_false href]
        simp [hclient]

/-- **When all the frames of a client are masked.** Whatever the calls, their data, the buffers,
the values of `gen_masking_key` and the answers of the stream, in whatever order: exactly when
every task that is run has the line that sets the key and draws a key other than zero, but for
tasks whose header the stream refuses. -/
theorem frames_masked_iff {buffers : ℕ → OwnedBuffer} {answers : List (Option ℕ)}
    {es : List Event} (h : Lts.exec step (start false buffers answers) es = some s) :
    (∀ fr ∈ s.sent, fr.Masked) ↔
      Lts.execIf step drawsKey (start false buffers answers) es = some s := by
  refine @Lts.good_iff_execIf _ _ step drawsKey (fun s => s.Inv ∧ s.serverSide = false)
    (fun s => ∀ fr ∈ s.sent, fr.Masked) ?_ ?_ _ _ es ⟨inv_start .., rfl⟩ ?_ h
  · exact fun hi hs => ⟨(hi.1.step hs).1, (hi.1.step hs).2.trans hi.2⟩
  · exact fun hi hs => masked_step_iff hi.1 hi.2 hs
  · exact fun fr hfr => absurd hfr List.not_mem_nil

/-- A buffer without any room, as a caller or the pool may have it. -/
def emptyBuffer : PooledBuffer where
  buffer := ⟨[], 0, 0, 0, 0⟩
  wf := ⟨by decide, by decide, by decide, rfl, by decide⟩
  small := by decide

/-- A call with a text of one byte, and its task run with the given key. -/
def oneByte (call : Text → Call) (key : UInt32) : List Event :=
  [.call (call ⟨[7], by decide⟩) emptyBuffer (fun _ => 0), .run key]

/-- A ping and a text, each under a key of its own. -/
theorem frames_masked_ping_text :
    ∃ s, Lts.exec step (start false (fun _ => emptyBuffer.toOwnedBuffer) [])
        (oneByte .sendPing 0x01020304 ++ oneByte .sendText 5) = some s ∧
      s.sent.length = 2 ∧ ∀ fr ∈ s.sent, fr.Masked := by
  obtain ⟨s, hs, hlen⟩ : ∃ s, Lts.execIf step drawsKey
      (start false (fun _ => emptyBuffer.toOwnedBuffer) [])
      (oneByte .sendPing 0x01020304 ++ oneByte .sendText 5) = some s ∧ s.sent.length = 2 :=
    ⟨_, rfl, rfl⟩
  have hrun : Lts.exec step (start false (fun _ => emptyBuffer.toOwnedBuffer) [])
      (oneByte .sendPing 0x01020304 ++ oneByte .sendText 5) = some s := hs
  exact ⟨s, hrun, hlen, (frames_masked_iff hrun).mpr hs⟩

/-- Without the line that sets the key, and with a key of zero, the frame goes out unmasked. -/
theorem frames_unmasked :
    (∃ s, Lts.exec step (start false (fun _ => emptyBuffer.toOwnedBuffer) [])
        (oneByte .sendBinary 5) = some s ∧ s.out.written = [0x82, 1, 7] ∧
        ∃ fr ∈ s.sent, ¬ fr.Masked) ∧
      ∃ s, Lts.exec step (start false (fun _ => emptyBuffer.toOwnedBuffer) [])
        (oneByte .sendText 0) = some s ∧ s.out.written = [0x81, 1, 7] ∧
        ∃ fr ∈ s.sent, ¬ fr.Masked :=
  ⟨⟨_, rfl, by decide, by decide⟩, ⟨_, rfl, by decide, by decide⟩⟩

end Conn

end Coin

end ArchNet

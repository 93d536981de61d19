import ArchNet.MuxDefine

/-!
# One Multiplexed Stream

The object `MultiplexingStream` of `mux_stream.cpp`: its fields, the calls of the
application that are waiting inside it, and its member functions, each split at the points
where the running fiber can be switched away. What happens between two such points is one
function here; the session (`ArchNet.MuxSession`) decides which fiber moves next.

Three kinds of fields are kept apart:

* the members of the class (`id` … `sendDone`), with the two locks as "held" bits;
* the calls under way — `recv` and `send` calls that wait for a notification, and how far
  the owner's `close()` has got (`owner`). The counter `close_wg_` is the number of waiting
  calls (`closeWg`);
* a history that no function reads: the bytes ever appended to `recv_buff_` and the results
  that `recv` and `send` have returned.
-/

namespace ArchNet

/-- `enum StreamState`. -/
inductive StreamState
  | init
  | synSent
  | synReceived
  | established
  | localClose
  | remoteClose
  | closed
  | reset
  deriving Repr, DecidableEq

/-- The states in which `send` refuses and `recv` no longer waits. -/
def StreamState.isShut : StreamState → Bool
  | localClose | remoteClose | closed | reset => true
  | init | synSent | synReceived | established => false

/-- How far the owner of a stream is in `close()`: not called, waiting for the FIN frame
with `state_lock_` held, FIN sent, waiting on `close_wg_`, about to deregister, returned. -/
inductive OwnerPc
  | idle
  | waitFin
  | finSent
  | waitWg
  | dereg
  | returned
  deriving Repr, DecidableEq

/-- A token on `send_done_notify_`: non-null or null, and (history only) the `send` call
whose task pushed it. -/
structure Token where
  ok : Bool
  call : Option ℕ := none
  deriving Repr, DecidableEq

/-- `class MultiplexingStream`. -/
structure MuxStream where
  id : UInt32
  state : StreamState
  recvWindow : UInt32 := maxStreamWindowSize
  sendWindow : UInt32 := maxStreamWindowSize
  stateLock : Bool := false
  recvLock : Bool := false
  recvBuff : List UInt8 := []
  recvDone : List Bool := []
  sendDone : List Token := []
  -- calls under way: the sizes `recv` waits with, ticket and size of the waiting `send`s
  readers : List ℕ := []
  senders : List (ℕ × ℕ) := []
  owner : OwnerPc := .idle
  -- history: handed to the application, bytes appended, results of `recv` and `send`
  handed : Bool := false
  appended : List UInt8 := []
  recvLog : List (ℤ × List UInt8) := []
  sendLog : List (ℕ × ℤ × Option ℕ) := []
  deriving Repr, DecidableEq

namespace MuxStream

/-- The count of `close_wg_`: the `recv` and `send` calls that have not returned. -/
def closeWg (st : MuxStream) : ℕ := st.readers.length + st.senders.length

/-- The two null tokens that wake readers and senders when a stream ends. -/
def notifyClose (st : MuxStream) : MuxStream :=
  { st with recvDone := st.recvDone ++ [false], sendDone := st.sendDone ++ [⟨false, none⟩] }

/-! ### Sending -/

/-- `send_flags()`: the SYN or ACK that the first frame of a stream carries. -/
def sendFlags (st : MuxStream) : UInt16 × MuxStream :=
  match st.state with
  | .init => (flagSYN, { st with state := .synSent })
  | .synReceived => (flagACK, { st with state := .established })
  | _ => (0, st)

/-- `send_window_update()` up to its `send_message`: the header it sends, if any. -/
def sendWindowUpdate (st : MuxStream) : Option Header × MuxStream :=
  let max := maxStreamWindowSize
  let delta := max - UInt32.ofNat st.recvBuff.length - st.recvWindow
  let (flags, st) := st.sendFlags
  if delta < max / 2 && flags == 0 then (none, st)
  else
    (some { msgType := .windowUpdate, flags := flags, streamId := st.id, length := delta },
      { st with recvWindow := st.recvWindow + delta })

/-- `send()` up to the wait for its notification: whether a task was queued. -/
def sendCall (st : MuxStream) (ticket count : ℕ) : Bool × MuxStream :=
  if st.state.isShut then (false, { st with sendLog := st.sendLog ++ [(ticket, -1, none)] })
  else if st.sendWindow = 0 then
    (false, { st with sendLog := st.sendLog ++ [(ticket, 0, none)] })
  else (true, { st with senders := st.senders ++ [(ticket, count)] })

/-- The task that `send()` queued, up to its `send_message`: the Data header, or `none`
when the stream has been closed in the meantime. The length field is 32 bits wide. -/
def sendTask (st : MuxStream) (ticket count : ℕ) : Option Header × MuxStream :=
  if st.state.isShut then
    (none, { st with sendDone := st.sendDone ++ [⟨false, some ticket⟩] })
  else
    let (flags, st) := st.sendFlags
    (some { msgType := .data, flags := flags, streamId := st.id,
            length := UInt32.ofNat count }, st)

/-- The end of that task: the notification for the waiting call. -/
def sendTaskDone (st : MuxStream) (ticket : ℕ) (ok : Bool) : MuxStream :=
  { st with sendDone := st.sendDone ++ [⟨ok, some ticket⟩] }

/-- A waiting `send` call (the `i`-th) takes the next token of `send_done_notify_`. -/
def sendWake (st : MuxStream) (i : ℕ) : Option MuxStream :=
  match st.senders[i]?, st.sendDone with
  | some (ticket, count), tok :: toks =>
      let ret : ℤ := if tok.ok then count else -1
      some { st with
        senders := st.senders.eraseIdx i
        sendDone := toks
        sendLog := st.sendLog ++ [(ticket, ret, tok.call)] }
  | _, _ => none

/-- A waiting `send` call gives up after `FLAGS_ConnectionWriteTimeout`. -/
def sendTimeout (st : MuxStream) (i : ℕ) : Option MuxStream :=
  match st.senders[i]? with
  | some (ticket, _) => some { st with
      senders := st.senders.eraseIdx i
      sendLog := st.sendLog ++ [(ticket, -1, none)] }
  | none => none

/-! ### Receiving -/

/-- `process_flags`, the ACK part. -/
def processAck (st : MuxStream) (flags : UInt16) : MuxStream :=
  if hasFlag flags flagACK && st.state == .synSent then { st with state := .established }
  else st

/-- `process_flags`, the FIN part: whether the stream ends, or `none` for the protocol
error "unexpected FIN flag". -/
def processFin (st : MuxStream) (flags : UInt16) : Option (Bool × MuxStream) :=
  if hasFlag flags flagFIN then
    match st.state with
    | .synSent | .synReceived | .established =>
        some (true, { st with state := .remoteClose })
    | .localClose => some (true, st)
    | _ => none
  else some (false, st)

/-- `process_flags`, the RST part. -/
def processRst (close : Bool) (st : MuxStream) (flags : UInt16) : Bool × MuxStream :=
  if hasFlag flags flagRST then (true, { st with state := .reset }) else (close, st)

/-- `process_flags`: whether the stream ends; `none` is the result `-1`, which leaves the
stream as it was. -/
def processFlags (st : MuxStream) (flags : UInt16) : Option (Bool × MuxStream) :=
  (processFin (st.processAck flags) flags).map fun (close, st) => processRst close st flags

/-- `increase_send_window`; `none` is the result `-1`. -/
def increaseSendWindow (st : MuxStream) (hdr : Header) : Option MuxStream :=
  (st.processFlags hdr.flags).map fun (close, st) =>
    let st := { st with sendWindow := st.sendWindow + hdr.length }
    if close then st.notifyClose else st

/-- `read_data` up to `recv_lock_.lock()`: the flags and the window check. An error carries
the stream as the result `-1` leaves it, success whether the stream ends. -/
def readDataCheck (st : MuxStream) (hdr : Header) : Except MuxStream (Bool × MuxStream) :=
  match st.processFlags hdr.flags with
  | none => .error st
  | some (close, st) => if hdr.length > st.recvWindow then .error st else .ok (close, st)

/-- How the rest of `read_data` ends: normally, with the result `-1`, or in the failed
assertion `ret == length`. -/
inductive ReadOutcome
  | ok (st : MuxStream)
  | err (st : MuxStream)
  | abort
  deriving Repr, DecidableEq

/-- `read_data` from `recv_lock_.lock()` on, given the value and the bytes of `read_body`.
The value passes through a `uint32_t`; a zero leaves with `recv_lock_` held, and a negative
one wraps around and fails the assertion. -/
def readDataBody (st : MuxStream) (length : UInt32) (close : Bool) (ret : ℤ)
    (bytes : List UInt8) : ReadOutcome :=
  let st := { st with recvBuff := st.recvBuff ++ bytes, appended := st.appended ++ bytes }
  let ret32 := UInt32.ofInt ret
  if ret32 ≤ 0 then .err { st with recvLock := true }
  else if ret32 ≠ length then .abort
  else
    let st := { st with recvWindow := st.recvWindow - ret32, recvDone := st.recvDone ++ [true] }
    .ok (if close then st.notifyClose else st)

/-- `recv_buff_.Next(count)` as the result of a `recv` call. -/
def takeNext (st : MuxStream) (count : ℕ) : MuxStream :=
  let slice := if count < st.recvBuff.length then st.recvBuff.take count else st.recvBuff
  { st with
    recvBuff := if count < st.recvBuff.length then st.recvBuff.drop count else []
    recvLog := st.recvLog ++ [((slice.length : ℤ), slice)] }

/-- `recv()` up to its result or to the wait for a notification. -/
def recvCall (st : MuxStream) (count : ℕ) : MuxStream :=
  if st.recvBuff = [] then
    if st.state.isShut then { st with recvLog := st.recvLog ++ [(0, [])] }
    else { st with readers := st.readers ++ [count] }
  else st.takeNext count

/-- A waiting `recv` call (the `i`-th) takes the next token of `recv_done_notify_`: a null
token ends it, another one makes it look at the buffer again. -/
def recvWake (st : MuxStream) (i : ℕ) : Option MuxStream :=
  match st.readers[i]?, st.recvDone with
  | some _, false :: toks => some { st with
      readers := st.readers.eraseIdx i
      recvDone := toks
      recvLog := st.recvLog ++ [(-1, [])] }
  | some count, true :: toks =>
      if st.recvBuff = [] then some { st with recvDone := toks }
      else some ({ st with readers := st.readers.eraseIdx i, recvDone := toks }.takeNext count)
  | _, _ => none

/-! ### Closing -/

/-- `close()` up to its first wait: the flags of the FIN frame to queue, if the stream was
open. In the open states `state_lock_` stays held; `Closed` and `Reset` return at once. -/
def closeCall (st : MuxStream) : Option UInt16 × MuxStream :=
  match st.state with
  | .synSent | .synReceived | .established =>
      let (flags, st) := { st with state := .localClose }.sendFlags
      (some (flags ||| flagFIN), { st with stateLock := true, owner := .waitFin })
  | .localClose => (none, { st with state := .closed, owner := .dereg })
  | .remoteClose => (none, { st with state := .closed, owner := .waitWg }.notifyClose)
  | .closed | .reset => (none, { st with owner := .returned })
  | .init => (none, { st with owner := .returned })

/-- The end of the FIN task: the token that a waiting `close()` takes. -/
def finDone (st : MuxStream) : MuxStream :=
  { st with owner := if st.owner = .waitFin then .finSent else st.owner }

/-- `close()` after the FIN frame has been sent: the stream is closed, the lock released. -/
def closeFin (st : MuxStream) : MuxStream :=
  { st with state := .closed, stateLock := false, owner := .waitWg }.notifyClose

/-- `set_close()`, called for every registered stream when the session closes. -/
def setClose (st : MuxStream) : MuxStream :=
  { st with state := .closed }.notifyClose

/-! ### What the member functions leave alone -/

variable {st st' : MuxStream} {flags : UInt16} {hdr : Header} {close : Bool}

/-- `process_ack` changes the state only. -/
theorem processAck_frame (st : MuxStream) (flags : UInt16) :
    ∃ x, st.processAck flags = { st with state := x } := by
  rw [processAck]
  split
  · exact ⟨_, rfl⟩
  · exact ⟨st.state, rfl⟩

/-- `process_fin` changes the state only. -/
theorem processFin_frame (h : st.processFin flags = some (close, st')) :
    ∃ x, st' = { st with state := x } := by
  rw [processFin] at h
  split at h
  · split at h
    case h_5 => exact absurd h (by simp)
    all_goals exact ⟨_, (Prod.mk.inj (Option.some.inj h)).2.symm⟩
  · exact ⟨st.state, (Prod.mk.inj (Option.some.inj h)).2.symm⟩

/-- `process_rst` changes the state only. -/
theorem processRst_frame (close : Bool) (st : MuxStream) (flags : UInt16) :
    ∃ x, (processRst close st flags).2 = { st with state := x } := by
  rw [processRst]
  split
  · exact ⟨_, rfl⟩
  · exact ⟨st.state, rfl⟩

/-- `process_flags` changes the state and nothing else. -/
theorem processFlags_frame (h : st.processFlags flags = some (close, st')) :
    ∃ x, st' = { st with state := x } := by
  obtain ⟨⟨c, st₁⟩, hfin, heq⟩ := Option.map_eq_some_iff.mp h
  obtain ⟨x, hx⟩ := st.processAck_frame flags
  obtain ⟨y, rfl⟩ := processFin_frame (hx ▸ hfin)
  obtain ⟨z, hz⟩ := processRst_frame c { st with state := y } flags
  refine ⟨z, ?_⟩
  rw [← hz]
  exact (Prod.mk.inj heq).2.symm

/-- What becomes of the state of a stream when a frame arrives for it: it stays, or the
stream is reset, or one that was open is established or closed by the peer. -/
def Arrived (x y : StreamState) : Prop :=
  y = x ∨ y = .reset ∨ (x.isShut = false ∧ (y = .established ∨ y = .remoteClose))

/-- An ACK establishes a stream whose SYN was sent. -/
theorem processAck_state (st : MuxStream) (flags : UInt16) :
    (st.processAck flags).state = st.state ∨
    (st.state = .synSent ∧ (st.processAck flags).state = .established) := by
  rw [processAck]
  split
  · next h => exact .inr ⟨by simpa using (Bool.and_eq_true_iff.mp h).2, rfl⟩
  · exact .inl rfl

/-- A FIN closes the remote side of a stream that is open. -/
theorem processFin_state (h : st.processFin flags = some (close, st')) :
    st'.state = st.state ∨ (st.state.isShut = false ∧ st'.state = .remoteClose) := by
  rw [processFin] at h
  split at h
  · split at h
    case h_5 => exact absurd h (by simp)
    case h_4 => exact .inl (by rw [← (Prod.mk.inj (Option.some.inj h)).2])
    all_goals next hst =>
      exact .inr ⟨by rw [hst]; rfl, by rw [← (Prod.mk.inj (Option.some.inj h)).2]⟩
  · exact .inl (by rw [← (Prod.mk.inj (Option.some.inj h)).2])

/-- A frame changes the state of its stream as `Arrived` says. -/
theorem processFlags_state (h : st.processFlags flags = some (close, st')) :
    Arrived st.state st'.state := by
  obtain ⟨⟨c, st₁⟩, hfin, heq⟩ := Option.map_eq_some_iff.mp h
  simp only [processRst] at heq
  split at heq
  · exact .inr (.inl (by rw [← (Prod.mk.inj heq).2]))
  · obtain ⟨rfl, rfl⟩ := Prod.mk.inj heq
    obtain hack | ⟨hsyn, hack⟩ := st.processAck_state flags
    · obtain h₁ | ⟨hopen, h₁⟩ := processFin_state hfin
      · exact .inl (h₁.trans hack)
      · exact .inr (.inr ⟨hack ▸ hopen, .inr h₁⟩)
    · have hopen : st.state.isShut = false := by rw [hsyn]; rfl
      obtain h₁ | ⟨-, h₁⟩ := processFin_state hfin
      · exact .inr (.inr ⟨hopen, .inl (h₁.trans hack)⟩)
      · exact .inr (.inr ⟨hopen, .inr h₁⟩)

/-- `increase_send_window` changes the state, the send window and the notifications. -/
theorem increaseSendWindow_frame (h : st.increaseSendWindow hdr = some st') :
    ∃ x d e, st' = { st with
      state := x, sendWindow := st.sendWindow + hdr.length, recvDone := d, sendDone := e } := by
  simp only [increaseSendWindow, Option.map_eq_some_iff] at h
  obtain ⟨⟨close, st₁⟩, hp, rfl⟩ := h
  obtain ⟨x, rfl⟩ := processFlags_frame hp
  dsimp only
  split
  · exact ⟨x, _, _, rfl⟩
  · exact ⟨x, st.recvDone, st.sendDone, rfl⟩

/-- The state after `increase_send_window` is the one `process_flags` left. -/
theorem increaseSendWindow_state (h : st.increaseSendWindow hdr = some st') :
    Arrived st.state st'.state := by
  simp only [increaseSendWindow, Option.map_eq_some_iff] at h
  obtain ⟨⟨close, st₁⟩, hp, rfl⟩ := h
  have hst := processFlags_state hp
  dsimp only at hst ⊢
  split <;> exact hst

/-- The first half of `read_data` changes the state; when it goes on, the frame fits. -/
theorem readDataCheck_ok (h : st.readDataCheck hdr = .ok (close, st')) :
    (∃ x, st' = { st with state := x }) ∧ hdr.length ≤ st.recvWindow := by
  simp only [readDataCheck] at h
  split at h
  · exact absurd h (by simp)
  · next hp =>
      obtain ⟨x, rfl⟩ := processFlags_frame hp
      split at h
      · exact absurd h (by simp)
      · next hle =>
          simp only [Except.ok.injEq, Prod.mk.injEq] at h
          exact ⟨⟨x, h.2.symm⟩, UInt32.not_lt.mp hle⟩

/-- A check that fails has changed the state only. -/
theorem readDataCheck_error (h : st.readDataCheck hdr = .error st') :
    ∃ x, st' = { st with state := x } := by
  simp only [readDataCheck] at h
  split at h
  · exact ⟨st.state, (Except.error.inj h).symm⟩
  · next hp =>
      obtain ⟨x, rfl⟩ := processFlags_frame hp
      split at h
      · exact ⟨x, (Except.error.inj h).symm⟩
      · exact absurd h (by simp)

/-- The first half of `read_data` writes the state. -/
theorem readDataCheck_frame
    (h : st.readDataCheck hdr = .error st' ∨ ∃ close, st.readDataCheck hdr = .ok (close, st')) :
    ∃ x, st' = { st with state := x } := by
  obtain h | ⟨_, h⟩ := h
  · exact readDataCheck_error h
  · exact (readDataCheck_ok h).1

/-- The state after the first half of `read_data`. -/
theorem readDataCheck_state
    (h : st.readDataCheck hdr = .error st' ∨ ∃ close, st.readDataCheck hdr = .ok (close, st')) :
    Arrived st.state st'.state := by
  simp only [readDataCheck] at h
  split at h
  · obtain h | ⟨_, h⟩ := h
    · exact .inl (by rw [Except.error.inj h])
    · exact absurd h (by simp)
  · next hp =>
      have hst := processFlags_state hp
      split at h
      · obtain h | ⟨_, h⟩ := h
        · exact Except.error.inj h ▸ hst
        · exact absurd h (by simp)
      · obtain h | ⟨_, h⟩ := h
        · exact absurd h (by simp)
        · exact (Prod.mk.inj (Except.ok.inj h)).2 ▸ hst

/-- `send_flags` changes the state. -/
theorem sendFlags_frame (st : MuxStream) : ∃ x, st.sendFlags.2 = { st with state := x } := by
  rw [sendFlags]
  split
  · exact ⟨_, rfl⟩
  · exact ⟨_, rfl⟩
  · exact ⟨st.state, rfl⟩

/-- The task of `send` changes the state and the notifications. -/
theorem sendTask_frame (st : MuxStream) (ticket count : ℕ) :
    ∃ x e, (st.sendTask ticket count).2 = { st with state := x, sendDone := e } := by
  rw [sendTask]
  split
  · exact ⟨st.state, _, rfl⟩
  · obtain ⟨x, hx⟩ := st.sendFlags_frame
    exact ⟨x, st.sendDone, hx⟩

/-- `close()` up to its first wait changes the state, the lock, its own progress and the
notifications. -/
theorem closeCall_frame (st : MuxStream) : ∃ x l w d e, st.closeCall.2 = { st with
    state := x, stateLock := l, owner := w, recvDone := d, sendDone := e } := by
  rw [closeCall]
  split
  · exact ⟨_, _, _, st.recvDone, st.sendDone, rfl⟩
  · exact ⟨_, _, _, st.recvDone, st.sendDone, rfl⟩
  · exact ⟨_, _, _, st.recvDone, st.sendDone, rfl⟩
  · exact ⟨_, st.stateLock, _, st.recvDone, st.sendDone, rfl⟩
  · exact ⟨_, st.stateLock, _, _, _, rfl⟩
  all_goals exact ⟨st.state, st.stateLock, _, st.recvDone, st.sendDone, rfl⟩

/-- `send()` changes the waiting calls and the results. -/
theorem sendCall_frame (st : MuxStream) (ticket count : ℕ) :
    ∃ w l, (st.sendCall ticket count).2 = { st with senders := w, sendLog := l } := by
  rw [sendCall]
  split
  · exact ⟨st.senders, _, rfl⟩
  · split
    · exact ⟨st.senders, _, rfl⟩
    · exact ⟨_, st.sendLog, rfl⟩

/-- What a `send` that wakes up changes. -/
theorem sendWake_frame {i : ℕ} (h : st.sendWake i = some st') :
    ∃ w e l, st' = { st with senders := w, sendDone := e, sendLog := l } := by
  rw [sendWake] at h
  split at h
  · exact ⟨_, _, _, (Option.some.inj h).symm⟩
  · exact absurd h (by simp)

/-- What a `send` that is given up changes. -/
theorem sendTimeout_frame {i : ℕ} (h : st.sendTimeout i = some st') :
    ∃ w l, st' = { st with senders := w, sendLog := l } := by
  rw [sendTimeout] at h
  split at h
  · exact ⟨_, _, (Option.some.inj h).symm⟩
  · exact absurd h (by simp)

/-- `recv()` changes the buffer, the waiting calls and the results. -/
theorem recvCall_frame (st : MuxStream) (count : ℕ) :
    ∃ b w l, st.recvCall count = { st with recvBuff := b, readers := w, recvLog := l } := by
  rw [recvCall]
  split
  · split
    · exact ⟨st.recvBuff, st.readers, _, rfl⟩
    · exact ⟨st.recvBuff, _, st.recvLog, rfl⟩
  · exact ⟨_, st.readers, _, rfl⟩

/-- What a `recv` that wakes up changes. -/
theorem recvWake_frame {i : ℕ} (h : st.recvWake i = some st') : ∃ b w d l, st' =
    { st with recvBuff := b, readers := w, recvDone := d, recvLog := l } := by
  rw [recvWake] at h
  split at h
  · exact ⟨st.recvBuff, _, _, _, (Option.some.inj h).symm⟩
  · split at h
    · exact ⟨st.recvBuff, st.readers, _, st.recvLog, (Option.some.inj h).symm⟩
    · exact ⟨_, _, _, _, (Option.some.inj h).symm⟩
  · exact absurd h (by simp)

/-- The outcomes of the second half of `read_data`. -/
theorem readDataBody_ok {length : UInt32} {ret : ℤ} {bytes : List UInt8}
    (h : st.readDataBody length close ret bytes = .ok st') :
    UInt32.ofInt ret = length ∧ length ≠ 0 ∧ ∃ d e, st' = { st with
      recvBuff := st.recvBuff ++ bytes, appended := st.appended ++ bytes
      recvWindow := st.recvWindow - length, recvDone := d, sendDone := e } := by
  simp only [readDataBody] at h
  split at h
  · exact absurd h (by simp)
  · next hpos =>
      split at h
      · exact absurd h (by simp)
      · next hlen =>
          rw [ne_eq, not_not] at hlen
          rw [hlen] at hpos h
          refine ⟨hlen, ?_, ?_⟩
          · rintro rfl
            exact hpos (UInt32.le_refl 0)
          · rw [ReadOutcome.ok.injEq] at h
            split at h
            · exact ⟨_, _, h.symm⟩
            · exact ⟨_, st.sendDone, h.symm⟩

/-- A body that fails keeps what has come of it, and the lock. -/
theorem readDataBody_err {length : UInt32} {ret : ℤ} {bytes : List UInt8}
    (h : st.readDataBody length close ret bytes = .err st') :
    st' = { st with
      recvBuff := st.recvBuff ++ bytes, appended := st.appended ++ bytes, recvLock := true } := by
  simp only [readDataBody] at h
  split at h
  · exact (ReadOutcome.err.inj h).symm
  · split at h <;> exact absurd h (by simp)

/-- The second half of `read_data` writes the receive side, and wakes a sender. -/
theorem readDataBody_frame {length : UInt32} {ret : ℤ} {bytes : List UInt8}
    (h : st.readDataBody length close ret bytes = .ok st' ∨
      st.readDataBody length close ret bytes = .err st') :
    ∃ b p w l d e, st' = { st with
      recvBuff := b, appended := p, recvWindow := w, recvLock := l, recvDone := d
      sendDone := e } := by
  obtain h | h := h
  · obtain ⟨-, -, d, e, heq⟩ := readDataBody_ok h
    exact ⟨_, _, _, _, d, e, heq⟩
  · exact ⟨_, _, _, _, _, _, readDataBody_err h⟩

/-- A byte count that came from a `uint32_t` survives the way back. -/
theorem ofInt_toNat (x : UInt32) : UInt32.ofInt (x.toNat : ℤ) = x := by
  have hx : ((x.toNat : ℤ) % 2 ^ 32).toNat = x.toNat := by
    have := x.toNat_lt
    omega
  rw [UInt32.ofInt, hx, UInt32.ofNat_toNat]

/-- An empty body is taken for a closed connection. -/
theorem readDataBody_empty (st : MuxStream) (close : Bool) :
    st.readDataBody 0 close 0 [] = .err { st with recvLock := true } := by
  have hzero : UInt32.ofInt 0 ≤ 0 := by decide
  simp only [readDataBody, if_pos hzero, List.append_nil]

/-- A body that was read in full is accepted, unless it is empty. -/
theorem readDataBody_full (st : MuxStream) {length : UInt32} (close : Bool)
    (bytes : List UInt8) (hne : length ≠ 0) :
    ∃ d e, st.readDataBody length close length.toNat bytes = .ok { st with
      recvBuff := st.recvBuff ++ bytes, appended := st.appended ++ bytes
      recvWindow := st.recvWindow - length, recvDone := d, sendDone := e } := by
  have hpos : ¬ length ≤ 0 := by
    rw [UInt32.le_iff_toNat_le]
    intro hle
    exact hne (UInt32.toNat_inj.mp (Nat.le_zero.mp hle))
  simp only [readDataBody, ofInt_toNat, if_neg hpos, ne_eq, not_true_eq_false, if_false]
  split
  · exact ⟨_, _, rfl⟩
  · exact ⟨_, st.sendDone, rfl⟩

end MuxStream

end ArchNet

import ArchNet.Buffer
import ArchNet.MuxStream

/-!
# What a Session Makes of Its Transport

A session writes a frame by one socket send for the header and one for the body, and reads the
body of a Data frame by one `read_body`. This module follows what the socket may answer there: a
send that takes only some of the bytes, and a read that fails or ends before the body is
complete.

## Conventions

* A `Sink` is what a connected stream offers to `send`: the bytes written so far, and for each
  send that is asked for bytes how many beyond the first it takes; a send of no bytes answers 0.
* Whether assertions are compiled in is a parameter of `readDataBodyWith`.

## Main results

* `sendParts_iff`: a sequence of sends that each take something has written everything exactly if
  each of them has taken all it was given.
* `send_message_iff`: both overloads of `send_message` answer 1 for whole frames only **exactly if
  the stream takes header and body in one send each**.
* `read_failure_not_clean`: after a failed body read `read_data` **never** returns -1 with the
  window unchanged and the lock released.
-/

namespace ArchNet.Transport

open Bytes

/-! ### Writing -/

/-- What a connected stream offers to `send`. -/
structure Sink where
  written : List UInt8 := []
  cuts : List ℕ := []
  deriving DecidableEq, Repr

/-- `ISocketStream::send(buf, count)`: the number of bytes taken. -/
def Sink.send (sink : Sink) (bytes : List UInt8) : ℕ × Sink :=
  let n := min bytes.length (sink.cuts.headD bytes.length + 1)
  (n, { written := sink.written ++ bytes.take n, cuts := sink.cuts.tail })

/-- The block on a buffer in `send_message`: whether the send took something; what it took is
retrieved from the buffer. -/
def sendBuffer (sink : Sink) : Option Buffer → Except Assertion (Bool × Sink × Option Buffer)
  | none => return (true, sink, none)
  | some b => do
      let size ← b.length
      let (n, sink) := sink.send (span b.buffer b.readIndex size)
      if n = 0 then
        return (false, sink, some b)
      else
        let b ← b.skip n
        return (true, sink, some b)

/-- `send_message(hdr_buf, body_buf, size)`. -/
def sendMessage (shutDown : Bool) (sink : Sink) (hdrBuf : Option Buffer)
    (bodyBuf : Option (List UInt8)) : Except Assertion (ℤ × Sink × Option Buffer) := do
  if shutDown then
    return (-1, sink, hdrBuf)
  else
    let (ok, sink, hdrBuf) ← sendBuffer sink hdrBuf
    if ok then
      match bodyBuf with
      | none => return (1, sink, hdrBuf)
      | some body =>
          let (n, sink) := sink.send body
          return (if n = 0 then -1 else 1, sink, hdrBuf)
    else
      return (-1, sink, hdrBuf)

/-- `send_message(hdr_buf, body_buf)`, with a buffer for the body. -/
def sendMessageBuffers (shutDown : Bool) (sink : Sink) (hdrBuf bodyBuf : Option Buffer) :
    Except Assertion (ℤ × Sink × Option Buffer × Option Buffer) := do
  if shutDown then
    return (-1, sink, hdrBuf, bodyBuf)
  else
    let (ok, sink, hdrBuf) ← sendBuffer sink hdrBuf
    if ok then
      let (ok, sink, bodyBuf) ← sendBuffer sink bodyBuf
      return (if ok then 1 else -1, sink, hdrBuf, bodyBuf)
    else
      return (-1, sink, hdrBuf, bodyBuf)

/-- The sends of some parts one after the other, up to one that takes nothing. -/
def sendParts (sink : Sink) : List (List UInt8) → Bool × Sink
  | [] => (true, sink)
  | part :: parts =>
      let (n, sink) := sink.send part
      if n = 0 then (false, sink) else sendParts sink parts

/-- The stream takes each of the parts **in one send**. -/
def takesAll (sink : Sink) : List (List UInt8) → Bool
  | [] => true
  | part :: parts =>
      decide ((sink.send part).1 = part.length) && takesAll (sink.send part).2 parts

theorem send_le (sink : Sink) (bytes : List UInt8) : (sink.send bytes).1 ≤ bytes.length :=
  Nat.min_le_left _ _

/-- Only a send of no bytes takes none. -/
theorem send_eq_zero_iff (sink : Sink) (bytes : List UInt8) :
    (sink.send bytes).1 = 0 ↔ bytes = [] := by
  rw [← List.length_eq_zero_iff, Sink.send]
  dsimp only
  omega

/-- A sequence of sends that all take something adds at most the parts, and all of them exactly
if each send takes all it is given. -/
theorem sendParts_written {sink sink' : Sink} {parts : List (List UInt8)}
    (h : sendParts sink parts = (true, sink')) :
    ∃ w, sink'.written = sink.written ++ w ∧ w.length ≤ parts.flatten.length ∧
      (takesAll sink parts = true → w = parts.flatten) ∧
      (takesAll sink parts = false → w.length < parts.flatten.length) := by
  induction parts generalizing sink with
  | nil =>
      obtain ⟨-, rfl⟩ := Prod.ext_iff.mp h
      exact ⟨[], (List.append_nil _).symm, Nat.le_refl _, fun _ => rfl, nofun⟩
  | cons part parts ih =>
      by_cases hzero : (sink.send part).1 = 0
      · simp only [sendParts, hzero, if_true] at h
        cases h
      · simp only [sendParts, if_neg hzero] at h
        obtain ⟨w, hw, hle, hall, hshort⟩ := ih h
        have hn := send_le sink part
        have htake : (part.take (sink.send part).1).length = (sink.send part).1 :=
          List.length_take_of_le hn
        refine ⟨part.take (sink.send part).1 ++ w, ?_, ?_, ?_, ?_⟩
        · rw [hw, ← List.append_assoc]
          rfl
        · rw [List.length_append, htake, List.flatten_cons, List.length_append]
          omega
        · intro htakes
          rw [takesAll, Bool.and_eq_true, decide_eq_true_eq] at htakes
          rw [htakes.1, List.take_length, hall htakes.2, List.flatten_cons]
        · intro htakes
          rw [takesAll, Bool.and_eq_false_iff, decide_eq_false_iff_not] at htakes
          rw [List.length_append, htake, List.flatten_cons, List.length_append]
          rcases htakes with hpart | hrest
          · omega
          · have := hshort hrest
            omega

/-- The sends go through exactly if no part is empty. -/
theorem sendParts_ok_iff (sink : Sink) (parts : List (List UInt8)) :
    (sendParts sink parts).1 = true ↔ [] ∉ parts := by
  induction parts generalizing sink with
  | nil => simp [sendParts]
  | cons part parts ih =>
      by_cases hzero : (sink.send part).1 = 0
      · simp only [sendParts, hzero, if_true]
        refine iff_of_false (by simp) ?_
        rw [not_not]
        exact (send_eq_zero_iff sink part).mp hzero ▸ List.mem_cons_self
      · have hne := mt (send_eq_zero_iff sink part).mpr hzero
        simp only [sendParts, if_neg hzero, ih, List.mem_cons, not_or]
        exact (and_iff_right (Ne.symm hne)).symm

/-- **Everything is written exactly if each send takes all it is given**, unless a part is empty
and its send takes nothing. -/
theorem sendParts_iff (sink : Sink) (parts : List (List UInt8)) :
    ((sendParts sink parts).1 = true →
        (sendParts sink parts).2.written = sink.written ++ parts.flatten) ↔
      [] ∈ parts ∨ takesAll sink parts = true := by
  by_cases hempty : [] ∈ parts
  · refine iff_of_true ?_ (.inl hempty)
    intro hok
    exact absurd hempty ((sendParts_ok_iff sink parts).mp hok)
  · have hok := (sendParts_ok_iff sink parts).mpr hempty
    obtain ⟨w, hw, -, hall, hshort⟩ := sendParts_written (Prod.ext hok rfl)
    rw [hw]
    constructor
    · intro hwhole
      refine .inr ?_
      by_contra htakes
      have hlt := hshort (Bool.not_eq_true _ ▸ htakes)
      rw [List.append_cancel_left (hwhole hok)] at hlt
      exact Nat.lt_irrefl _ hlt
    · rintro (hmem | htakes) -
      · exact absurd hmem hempty
      · rw [hall htakes]

/-! ### `send_message` -/

/-- The bytes a call of `send_message` is given, part by part. -/
def frameParts (hdrBuf : Option Buffer) (body : Option (List UInt8)) : List (List UInt8) :=
  (hdrBuf.map Buffer.unread).toList ++ body.toList

theorem sendParts_append (sink : Sink) (parts parts' : List (List UInt8)) :
    sendParts sink (parts ++ parts') =
      if (sendParts sink parts).1 then sendParts (sendParts sink parts).2 parts'
      else sendParts sink parts := by
  induction parts generalizing sink with
  | nil => rfl
  | cons part parts ih =>
      by_cases hzero : (sink.send part).1 = 0
      · simp [sendParts, hzero]
      · simp [sendParts, hzero, ih]

/-- The block on a buffer passes the assertions of a well-formed one, and sends its unread
bytes. -/
theorem sendBuffer_eq (sink : Sink) {buf : Option Buffer} (hwf : ∀ b ∈ buf, b.WF) :
    ∃ buf', sendBuffer sink buf =
      .ok ((sendParts sink (buf.map Buffer.unread).toList).1,
        (sendParts sink (buf.map Buffer.unread).toList).2, buf') := by
  cases buf with
  | none => exact ⟨none, rfl⟩
  | some b =>
      have hb := hwf b rfl
      obtain ⟨b', hskip, -, -⟩ := hb.skip (sink.send b.unread).1
      rw [sendBuffer, hb.length_eq, ok_bind]
      change ∃ buf', (if (sink.send b.unread).1 = 0 then _ else _) = _
      by_cases hzero : (sink.send b.unread).1 = 0
      · refine ⟨some b, ?_⟩
        simp only [Option.map_some, Option.toList_some, sendParts, if_pos hzero]
        rfl
      · refine ⟨some b', ?_⟩
        simp only [Option.map_some, Option.toList_some, sendParts, if_neg hzero]
        change (b.skip (sink.send b.unread).1 >>= _) = _
        rw [hskip, ok_bind]
        rfl

/-- What `send_message` answers and writes, in terms of the parts it is given. -/
def sendFrame (shutDown : Bool) (sink : Sink) (parts : List (List UInt8)) : ℤ × Sink :=
  if shutDown then (-1, sink)
  else (if (sendParts sink parts).1 then 1 else -1, (sendParts sink parts).2)

theorem sendMessage_eq (shutDown : Bool) (sink : Sink) {hdrBuf : Option Buffer}
    (bodyBuf : Option (List UInt8)) (hwf : ∀ b ∈ hdrBuf, b.WF) :
    ∃ hdrBuf', sendMessage shutDown sink hdrBuf bodyBuf =
      .ok ((sendFrame shutDown sink (frameParts hdrBuf bodyBuf)).1,
        (sendFrame shutDown sink (frameParts hdrBuf bodyBuf)).2, hdrBuf') := by
  cases shutDown with
  | true => exact ⟨hdrBuf, rfl⟩
  | false =>
      obtain ⟨hdrBuf', hsend⟩ := sendBuffer_eq sink hwf
      refine ⟨hdrBuf', ?_⟩
      rw [sendMessage, hsend, sendFrame, frameParts, sendParts_append]
      rcases hok : sendParts sink (hdrBuf.map Buffer.unread).toList with ⟨ok, sink'⟩
      cases ok with
      | false => rfl
      | true =>
          cases bodyBuf with
          | none => rfl
          | some body =>
              by_cases hzero : (sink'.send body).1 = 0
              · simp [sendParts, hzero, ok_bind]
                rfl
              · simp [sendParts, hzero, ok_bind]
                rfl

theorem sendMessageBuffers_eq (shutDown : Bool) (sink : Sink) {hdrBuf bodyBuf : Option Buffer}
    (hhdr : ∀ b ∈ hdrBuf, b.WF) (hbody : ∀ b ∈ bodyBuf, b.WF) :
    ∃ hdrBuf' bodyBuf', sendMessageBuffers shutDown sink hdrBuf bodyBuf =
      .ok ((sendFrame shutDown sink (frameParts hdrBuf (bodyBuf.map Buffer.unread))).1,
        (sendFrame shutDown sink (frameParts hdrBuf (bodyBuf.map Buffer.unread))).2,
        hdrBuf', bodyBuf') := by
  cases shutDown with
  | true => exact ⟨hdrBuf, bodyBuf, rfl⟩
  | false =>
      obtain ⟨hdrBuf', hsend⟩ := sendBuffer_eq sink hhdr
      rw [sendMessageBuffers, hsend, sendFrame, frameParts, sendParts_append]
      rcases hok : sendParts sink (hdrBuf.map Buffer.unread).toList with ⟨ok, sink'⟩
      cases ok with
      | false => exact ⟨hdrBuf', bodyBuf, rfl⟩
      | true =>
          obtain ⟨bodyBuf', hsend'⟩ := sendBuffer_eq sink' hbody
          refine ⟨hdrBuf', bodyBuf', ?_⟩
          simp only [Bool.false_eq_true, if_false, if_true, ok_bind, hsend']
          rfl

/-- The answer 1 stands for everything written, as long as each send takes all it is given. -/
theorem sendFrame_iff (shutDown : Bool) (sink : Sink) (parts : List (List UInt8)) :
    ((sendFrame shutDown sink parts).1 = 1 →
        (sendFrame shutDown sink parts).2.written = sink.written ++ parts.flatten) ↔
      shutDown = true ∨ [] ∈ parts ∨ takesAll sink parts = true := by
  rw [← sendParts_iff, sendFrame]
  cases shutDown with
  | true => simp
  | false =>
      cases hok : (sendParts sink parts).1 <;> simp

/-- **Both overloads of `send_message` answer 1 for whole frames only exactly if** the stream
takes header and body in one send each; calls on a session that has shut down, or with an empty
part, never answer 1. -/
theorem send_message_iff (shutDown : Bool) (sink : Sink) (hdrBuf bodyBuf : Option Buffer)
    (body : Option (List UInt8)) (hhdr : ∀ b ∈ hdrBuf, b.WF) (hbody : ∀ b ∈ bodyBuf, b.WF) :
    ((∀ sink' hdrBuf', sendMessage shutDown sink hdrBuf body = .ok (1, sink', hdrBuf') →
        sink'.written = sink.written ++ (frameParts hdrBuf body).flatten) ↔
      shutDown = true ∨ [] ∈ frameParts hdrBuf body ∨
        takesAll sink (frameParts hdrBuf body) = true) ∧
    ((∀ sink' hdrBuf' bodyBuf',
        sendMessageBuffers shutDown sink hdrBuf bodyBuf = .ok (1, sink', hdrBuf', bodyBuf') →
        sink'.written =
          sink.written ++ (frameParts hdrBuf (bodyBuf.map Buffer.unread)).flatten) ↔
      shutDown = true ∨ [] ∈ frameParts hdrBuf (bodyBuf.map Buffer.unread) ∨
        takesAll sink (frameParts hdrBuf (bodyBuf.map Buffer.unread)) = true) := by
  constructor
  · obtain ⟨hdrBuf', heq⟩ := sendMessage_eq shutDown sink body hhdr
    rw [← sendFrame_iff, heq]
    constructor
    · intro h hone
      refine h _ hdrBuf' ?_
      rw [hone]
    · intro h sink' hdrBuf'' hres
      obtain ⟨hone, hrest⟩ := Prod.ext_iff.mp (Except.ok.inj hres)
      obtain ⟨rfl, -⟩ := Prod.ext_iff.mp hrest
      exact h hone
  · obtain ⟨hdrBuf', bodyBuf', heq⟩ := sendMessageBuffers_eq shutDown sink hhdr hbody
    rw [← sendFrame_iff, heq]
    constructor
    · intro h hone
      refine h _ hdrBuf' bodyBuf' ?_
      rw [hone]
    · intro h sink' hdrBuf'' bodyBuf'' hres
      obtain ⟨hone, hrest⟩ := Prod.ext_iff.mp (Except.ok.inj hres)
      obtain ⟨rfl, -⟩ := Prod.ext_iff.mp hrest
      exact h hone

/-- The header of a Data frame with one byte of body, and a buffer with that byte. -/
def exampleHeader : Buffer :=
  { buffer := [0, 0, 0, 1, 0, 0, 0, 1, 0, 0, 0, 1], capacity := 12, readIndex := 0,
    writeIndex := 12, reservedPrependSize := 0 }

def exampleBody : Buffer :=
  { buffer := [7], capacity := 1, readIndex := 0, writeIndex := 1, reservedPrependSize := 0 }

theorem exampleHeader_wf : ∀ b ∈ some exampleHeader, b.WF := by
  rintro b ⟨⟩
  exact ⟨by decide, by decide, by decide, rfl, by decide⟩

theorem send_message_whole_frame :
    (sendMessage false {} (some exampleHeader) (some [7])).toOption.map
        (fun r => (r.1, r.2.1.written)) =
      some (1, [0, 0, 0, 1, 0, 0, 0, 1, 0, 0, 0, 1, 7]) :=
  congrArg (fun w => some ((1 : ℤ), w))
    ((send_message_iff false {} (some exampleHeader) none (some [7]) exampleHeader_wf nofun).1.mpr
      (.inr (.inr rfl)) _ _ rfl)

/-- A header of which the stream takes one byte is **reported as sent**, and the body follows
that byte; so in both overloads. -/
theorem send_message_cuts_header :
    (¬ ∀ sink' hdrBuf',
      sendMessage false { cuts := [0] } (some exampleHeader) (some [7]) =
          .ok (1, sink', hdrBuf') →
        sink'.written = [0, 0, 0, 1, 0, 0, 0, 1, 0, 0, 0, 1, 7]) ∧
    ¬ ∀ sink' hdrBuf' bodyBuf',
      sendMessageBuffers false { cuts := [0] } (some exampleHeader) (some exampleBody) =
          .ok (1, sink', hdrBuf', bodyBuf') →
        sink'.written = [0, 0, 0, 1, 0, 0, 0, 1, 0, 0, 0, 1, 7] := by
  constructor
  · intro h
    exact absurd (h _ _ rfl) (by decide)
  · intro h
    exact absurd (h _ _ _ rfl) (by decide)

/-! ### Reading a body -/

open MuxStream (ReadOutcome)

/-- `read_data` from `recv_lock_.lock()` on. The value of `read_body` passes through a
`uint32_t`, so that only 0 is taken for a failure; it leaves with the lock taken. Without
assertions any other value counts as a length. -/
def readDataBodyWith (asserts : Bool) (st : MuxStream) (length : UInt32) (close : Bool) (ret : ℤ)
    (bytes : List UInt8) : ReadOutcome :=
  let st := { st with
    recvLock := true, recvBuff := st.recvBuff ++ bytes, appended := st.appended ++ bytes }
  let ret32 := UInt32.ofInt ret
  if ret32 ≤ 0 then .err st
  else
    let st := { st with recvLock := false, recvWindow := st.recvWindow - ret32 }
    if asserts && ret32 != length then .abort
    else
      let st := { st with recvDone := st.recvDone ++ [true] }
      .ok (if close then st.notifyClose else st)

/-- `read_data`, given the value and the bytes of `read_body`. -/
def readData (asserts : Bool) (st : MuxStream) (hdr : Header) (ret : ℤ) (bytes : List UInt8) :
    ReadOutcome :=
  match st.readDataCheck hdr with
  | .error st => .err st
  | .ok (close, st) => readDataBodyWith asserts st hdr.length close ret bytes

/-- With assertions it is the body read of the session's steps. -/
theorem readDataBodyWith_true {st : MuxStream} (hlock : st.recvLock = false) (length : UInt32)
    (close : Bool) (ret : ℤ) (bytes : List UInt8) :
    readDataBodyWith true st length close ret bytes = st.readDataBody length close ret bytes := by
  simp only [readDataBodyWith, MuxStream.readDataBody, hlock, Bool.true_and, bne_iff_ne]

/-- The result -1 that leaves the window as it was and the lock released. -/
def FailsCleanly (st : MuxStream) : ReadOutcome → Prop
  | .err st' => st'.recvWindow = st.recvWindow ∧ st'.recvLock = false
  | .ok _ | .abort => False

instance (st : MuxStream) : DecidablePred (FailsCleanly st)
  | .err _ => inferInstanceAs (Decidable (_ ∧ _))
  | .ok _ => inferInstanceAs (Decidable False)
  | .abort => inferInstanceAs (Decidable False)

/-- The result -1 of the body read comes **with the lock held**. -/
theorem readDataBodyWith_err {asserts : Bool} {st st' : MuxStream} {length : UInt32}
    {close : Bool} {ret : ℤ} {bytes : List UInt8}
    (h : readDataBodyWith asserts st length close ret bytes = .err st') : st'.recvLock = true := by
  simp only [readDataBodyWith] at h
  split_ifs at h
  · rw [← ReadOutcome.err.inj h]

/-- A connection that ends while a body is read leaves **the lock held for good**. -/
theorem readDataBodyWith_zero (asserts : Bool) (st : MuxStream) (length : UInt32) (close : Bool)
    (bytes : List UInt8) :
    readDataBodyWith asserts st length close 0 bytes = .err { st with
      recvLock := true, recvBuff := st.recvBuff ++ bytes, appended := st.appended ++ bytes } := by
  have hzero : UInt32.ofInt 0 ≤ 0 := by decide
  simp only [readDataBodyWith, if_pos hzero]

/-- An error of the connection is **taken for a length**: without assertions the window changes
and the read counts as done. -/
theorem readDataBodyWith_neg (st : MuxStream) (length : UInt32) (close : Bool) {ret : ℤ}
    (bytes : List UInt8) (hneg : ret < 0) (hint : -2 ^ 31 ≤ ret) :
    ∃ st', readDataBodyWith false st length close ret bytes = .ok st' ∧
      st'.recvWindow = st.recvWindow - UInt32.ofInt ret ∧ st'.recvWindow ≠ st.recvWindow := by
  have hpos : ¬ UInt32.ofInt ret ≤ 0 := by
    rw [UInt32.le_iff_toNat_le, UInt32.ofInt, UInt32.toNat_ofNat]
    change ¬ (ret % 2 ^ 32).toNat % 2 ^ 32 ≤ 0
    omega
  have hwindow : st.recvWindow - UInt32.ofInt ret ≠ st.recvWindow := by
    intro heq
    apply hpos
    have hnat := congrArg UInt32.toNat heq
    rw [UInt32.toNat_sub] at hnat
    have hlt := st.recvWindow.toNat_lt
    have hret := (UInt32.ofInt ret).toNat_lt
    rw [UInt32.le_iff_toNat_le]
    change (UInt32.ofInt ret).toNat ≤ 0
    omega
  simp only [readDataBodyWith, if_neg hpos, Bool.false_and, Bool.false_eq_true, if_false]
  cases close with
  | true => exact ⟨_, rfl, rfl, hwindow⟩
  | false => exact ⟨_, rfl, rfl, hwindow⟩

/-- **No body read fails cleanly**: on no stream, for no header that fits its window and for no
value of `read_body` does `read_data` come to answer -1 with the window unchanged and the lock
released. -/
theorem read_failure_not_clean (asserts : Bool) (st : MuxStream) (hdr : Header) (ret : ℤ)
    (bytes : List UInt8) (hbody : ∃ r, st.readDataCheck hdr = .ok r) :
    ¬ FailsCleanly st (readData asserts st hdr ret bytes) := by
  obtain ⟨⟨close, st'⟩, hcheck⟩ := hbody
  rw [readData, hcheck]
  dsimp only
  cases hres : readDataBodyWith asserts st' hdr.length close ret bytes with
  | ok st'' => exact id
  | abort => exact id
  | err st'' =>
      rintro ⟨-, hlock⟩
      rw [readDataBodyWith_err hres] at hlock
      cases hlock

/-- An established stream, and the header of a frame with five bytes of body. -/
def exampleStream : MuxStream := { id := 1, state := .established }

def exampleData : Header := { msgType := .data, flags := 0, streamId := 1, length := 5 }

theorem read_failure_not_clean_eof :
    ¬ FailsCleanly exampleStream (readData true exampleStream exampleData 0 [7]) :=
  read_failure_not_clean true exampleStream exampleData 0 [7] ⟨_, rfl⟩

/-- The end of the connection within a body **keeps the lock**; an error of the connection is no
result -1 at all, with assertions or without. -/
theorem read_failure_keeps_lock :
    ¬ (∀ asserts, FailsCleanly exampleStream (readData asserts exampleStream exampleData 0 [7])) ∧
      ∀ asserts,
        ¬ FailsCleanly exampleStream (readData asserts exampleStream exampleData (-1) [7]) := by
  constructor
  · intro h
    exact absurd (h true) (by decide)
  · rintro (_ | _)
    · decide
    · decide

end ArchNet.Transport

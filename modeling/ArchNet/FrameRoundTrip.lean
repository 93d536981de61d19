import ArchNet.HeaderCodec
import ArchNet.RecvLoop

/-!
# WebSocket Frames Between Two Ends

The sending half of `coin::websocket`: the setters, `make_frame_header`, and `send_frame_data`,
which masks the payload where it lies in the caller's buffer; and `read_frame_data` on the
receiver's buffer. After the header has been made the key field holds the key in wire order, so
that the bytes which mask the payload are those that the receiver will have read into its own
field.

## Conventions

* An `Outlet` is what a connected stream offers to `send`: for each call an error or the number
  of bytes it takes at most; a list that is used up stands for complete writes.
* A loop over `data()[i]` changes the unread bytes in place (`maskData`).

## Main results

* `sendFrameData_fresh`: **what a fresh frame puts on the stream** — the header of the format and
  the masked payload.
* `readFrameDataInto_eq`: what `read_frame_data` leaves in an empty buffer.
* `frame_round_trip`: **a frame arrives as it was sent**, for every key and every length that an
  `int` can count.
-/

open Bytes

namespace ArchNet

/-! ### Masking -/

@[simp] theorem length_xorMask (key : List UInt8) (n : ℕ) (l : List UInt8) :
    (xorMask key n l).length = l.length := by
  rw [xorMask, List.length_mapIdx]

/-- **Masking twice changes nothing.** -/
theorem xorMask_xorMask (key : List UInt8) (n : ℕ) (l : List UInt8) :
    xorMask key n (xorMask key n l) = l := by
  apply List.ext_getElem
  · rw [length_xorMask, length_xorMask]
  · intro i _ _
    simp only [xorMask, List.getElem_mapIdx]
    by_cases hi : i < n
    · rw [if_pos hi, if_pos hi, UInt8.xor_assoc, UInt8.xor_self, UInt8.xor_zero]
    · rw [if_neg hi, if_neg hi]

namespace Buffer

/-- A loop `data()[i] ^= mask[i % 4]` over the first `n` bytes. -/
def maskData (b : Buffer) (key : List UInt8) (n : ℕ) : Buffer :=
  { b with buffer := memcpy b.buffer b.readIndex (xorMask key n (span b.buffer b.readIndex n)) }

/-- The loop over all unread bytes masks these and leaves the indices alone. -/
theorem WF.maskData {b : Buffer} (h : b.WF) (key : List UInt8) :
    (b.maskData key b.unread.length).WF ∧
      (b.maskData key b.unread.length).unread = xorMask key b.unread.length b.unread := by
  have hlen := h.length_unread
  obtain ⟨hread, hwrite, hres, hblock, hsized⟩ := h
  have hspan : span b.buffer b.readIndex b.unread.length = b.unread := by
    rw [hlen]
    rfl
  have hmask : (xorMask key b.unread.length b.unread).length = b.writeIndex - b.readIndex :=
    (length_xorMask ..).trans hlen
  rw [Buffer.maskData, hspan]
  refine ⟨⟨hread, hwrite, hres, ?_, hsized⟩, ?_⟩
  · exact (length_memcpy (by omega)).trans hblock
  · change span _ b.readIndex (b.writeIndex - b.readIndex) = _
    rw [← hmask]
    exact span_memcpy_self (by omega)

/-- Both ends mask only where the mask bit is set. -/
theorem WF.maskData_if {b : Buffer} (h : b.WF) (mask : Bool) (key : List UInt8) :
    (if mask then b.maskData key b.unread.length else b).WF ∧
      (if mask then b.maskData key b.unread.length else b).unread =
        if mask then xorMask key b.unread.length b.unread else b.unread := by
  cases mask with
  | false => exact ⟨h, rfl⟩
  | true => exact h.maskData key

end Buffer

open Buffer

/-! ### The sending end -/

/-- What a connected stream offers to `send`: `none` is the answer -1. -/
structure Outlet where
  written : List UInt8 := []
  answers : List (Option ℕ) := []
  deriving DecidableEq, Repr

/-- `ISocketStream::send(buf, count)`. -/
def Outlet.send (out : Outlet) (bytes : List UInt8) : ℤ × Outlet :=
  match out.answers.headD (some bytes.length) with
  | none => (-1, { out with answers := out.answers.tail })
  | some k => ((min k bytes.length : ℕ),
      { written := out.written ++ bytes.take k, answers := out.answers.tail })

/-- A **complete write**. -/
theorem Outlet.send_complete {out : Outlet} (h : out.answers = []) (bytes : List UInt8) :
    out.send bytes =
      ((bytes.length : ℤ), { written := out.written ++ bytes, answers := [] }) := by
  simp [Outlet.send, h]

namespace Coin

/-- `class websocket`, as far as sending is concerned. -/
structure Websocket where
  header : FrameHeader := .reset
  headerBuf : List UInt8 := []
  headerSent : Bool := false
  deriving DecidableEq, Repr

namespace Websocket

/-- `set_frame_fin`. -/
def setFrameFin (ws : Websocket) (yes : Bool) : Websocket :=
  { ws with header := { ws.header with fin := yes } }

/-- `set_frame_opcode`. -/
def setFrameOpcode (ws : Websocket) (type : Opcode) : Websocket :=
  { ws with header := { ws.header with opcode := type } }

/-- `set_frame_payload_len`. -/
def setFramePayloadLen (ws : Websocket) (len : ℕ) : Websocket :=
  { ws with header := { ws.header with payloadLen := len } }

/-- `set_frame_masking_key`: a key of zero means no mask. -/
def setFrameMaskingKey (ws : Websocket) (mask : UInt32) : Websocket :=
  { ws with header := { ws.header with
      maskingKey := hostBytes 4 mask.toNat, mask := mask != 0 } }

/-- `make_frame_header`; the key is saved as it stands in the header's bytes. -/
def makeFrameHeader (ws : Websocket) : Websocket :=
  { ws with
    headerBuf := ws.header.makeFrameHeader
    header := if ws.header.mask
      then { ws.header with maskingKey := ws.header.maskingKey.reverse } else ws.header }

/-- The part of `send_frame_data` that sends the header once. -/
def sendHeader (ws : Websocket) (out : Outlet) : Bool × Websocket × Outlet :=
  if ws.headerSent then (true, ws, out)
  else
    let ws := { ws with headerSent := true }.makeFrameHeader
    let (ret, out) := out.send ws.headerBuf
    (decide (ret ≠ -1), ws, out)

/-- `send_frame_data(buffer)`. What the stream takes is retrieved from the buffer. -/
def sendFrameData (ws : Websocket) (buffer : Option Buffer) (out : Outlet) :
    Except Assertion (Bool × Websocket × Option Buffer × Outlet) := do
  let (ok, ws, out) := ws.sendHeader out
  if ok then
    match buffer with
    | none => return (true, ws, none, out)
    | some b =>
        let size ← b.length
        if size = 0 then
          return (true, ws, some b, out)
        else
          let b := if ws.header.mask then b.maskData ws.header.maskingKey size else b
          let (ret, out) := out.send (span b.buffer b.readIndex size)
          if ret = -1 then
            return (false, ws, some b, out)
          else
            let b ← if 0 < ret then b.skip ret.toNat else pure b
            return (true, ws, some b, out)
  else
    return (false, ws, buffer, out)

@[simp] theorem makeFrameHeader_mask (ws : Websocket) :
    ws.makeFrameHeader.header.mask = ws.header.mask := by
  rw [makeFrameHeader]
  split_ifs <;> rfl

/-- The key that is kept is the one that the header ends with. -/
theorem makeFrameHeader_maskingKey {ws : Websocket} (h : ws.header.mask = true) :
    ws.makeFrameHeader.header.maskingKey = ws.header.maskingKey.reverse := by
  simp only [makeFrameHeader, h, if_true]

/-- The header goes out first. -/
theorem sendHeader_fresh {ws : Websocket} (hfresh : ws.headerSent = false) {out : Outlet}
    (hout : out.answers = []) :
    ws.sendHeader out = (true, { ws with headerSent := true }.makeFrameHeader,
      { written := out.written ++ ws.header.makeFrameHeader, answers := [] }) := by
  have hsent : ((ws.header.makeFrameHeader.length : ℕ) : ℤ) ≠ -1 := by omega
  simp only [sendHeader, hfresh, Bool.false_eq_true, if_false, makeFrameHeader,
    Outlet.send_complete hout, decide_eq_true hsent]

/-- **What a fresh frame puts on a stream that takes complete writes**: the header, and the
payload under the bytes of the key that the header ends with. -/
theorem sendFrameData_fresh {ws : Websocket} (hfresh : ws.headerSent = false) {payload : Buffer}
    (hwf : payload.WF) (hne : payload.unread ≠ []) {out : Outlet} (hout : out.answers = []) :
    ∃ ws' payload', ws.sendFrameData (some payload) out = .ok (true, ws', some payload',
      { written := out.written ++ ws.header.makeFrameHeader ++
          (if ws.header.mask
            then xorMask ws.header.maskingKey.reverse payload.unread.length payload.unread
            else payload.unread)
        answers := [] }) ∧ payload'.unread = [] := by
  generalize hws : { ws with headerSent := true }.makeFrameHeader = ws'
  have hmask : ws'.header.mask = ws.header.mask := by rw [← hws, makeFrameHeader_mask]
  have hsize : payload.length = .ok payload.unread.length := by
    rw [hwf.length_eq, hwf.length_unread]
  have hpos : payload.unread.length ≠ 0 := mt List.length_eq_zero_iff.mp hne
  -- the payload under the mask, still in the caller's buffer
  obtain ⟨hwf₁, hun₁⟩ := hwf.maskData_if ws'.header.mask ws'.header.maskingKey
  generalize hb : (if ws'.header.mask then payload.maskData ws'.header.maskingKey
    payload.unread.length else payload) = b at hwf₁ hun₁
  have hlen : b.unread.length = payload.unread.length := by
    rw [hun₁]
    split_ifs
    · exact length_xorMask ..
    · rfl
  have hspan : span b.buffer b.readIndex payload.unread.length = b.unread := by
    rw [← hlen, hwf₁.length_unread]
    rfl
  obtain ⟨b', hskip, -, hun'⟩ := hwf₁.skip payload.unread.length
  refine ⟨ws', b', ?_, ?_⟩
  · rw [sendFrameData, sendHeader_fresh hfresh hout, hws]
    simp only [if_true, hsize, ok_bind, if_neg hpos, hb, hspan, Outlet.send_complete]
    rw [if_neg (by omega), if_pos (by omega), hlen, Int.toNat_natCast, hskip, ok_bind, hun₁,
      hmask]
    cases hset : ws.header.mask with
    | false => rfl
    | true =>
        rw [← hws, @makeFrameHeader_maskingKey { ws with headerSent := true } hset]
        rfl
  · rw [hun', ← hlen, List.drop_length]

/-- The setters, called before a frame is sent. -/
def setFrame (ws : Websocket) (fin : Bool) (opcode : Opcode) (key : UInt32) (len : ℕ) :
    Websocket :=
  (((ws.setFrameFin fin).setFrameOpcode opcode).setFramePayloadLen len).setFrameMaskingKey key

end Websocket

/-- `read_frame_data(recv_buf)`, with the header that has been read. -/
def readFrameDataInto (h : FrameHeader) (recvBuf : Buffer) (src : Source) (junk : ℕ → UInt8) :
    Except Assertion (Option (ℤ × Buffer × Source)) := do
  match ← recvBuf.readN src (h.payloadLen % 2 ^ 32) junk with
  | none => return none
  | some (ret, recvBuf, src) =>
      if ret ≤ 0 then
        return some (-1, recvBuf, src)
      else
        let recvBuf :=
          if h.mask then recvBuf.maskData h.maskingKey ret.toNat else recvBuf
        return some (asInt ret.toNat, recvBuf, src)

/-! ### The receiving end -/

/-- **What `read_frame_data` leaves in an empty buffer**: the payload without its mask. -/
theorem readFrameDataInto_eq {h : FrameHeader} {recvBuf : Buffer} (hwf : recvBuf.WF)
    (hempty : recvBuf.unread = []) {data rest : List UInt8} (hlen : h.payloadLen = data.length)
    (hpos : data ≠ []) (hint : data.length < 2 ^ 31)
    (hcap : recvBuf.capacity * 2 + data.length < 2 ^ 64) {src : Source}
    (hsrc : src.bytes = data ++ rest) (junk : ℕ → UInt8) :
    ∃ recvBuf' cuts, readFrameDataInto h recvBuf src junk =
        .ok (some ((data.length : ℤ), recvBuf', { src with bytes := rest, cuts := cuts })) ∧
      recvBuf'.unread =
        if h.mask then xorMask h.maskingKey data.length data else data := by
  have hsize : h.payloadLen % 2 ^ 32 = data.length := by omega
  have hle : data.length ≤ src.bytes.length := by
    rw [hsrc, List.length_append]
    omega
  have hlt := List.length_pos_iff.mpr hpos
  obtain ⟨cuts, hread⟩ := readNFromSocketStream_eq hlt hle
  have hsim := hwf.readN_simulates hempty src hcap junk
  rw [hread, hsrc, List.take_left, List.drop_left] at hsim
  obtain ⟨b, heq, hwf', hun⟩ := hsim
  obtain ⟨-, hmasked⟩ := hwf'.maskData_if h.mask h.maskingKey
  rw [hun] at hmasked
  refine ⟨_, cuts, ?_, hmasked⟩
  have hnot : ¬ ((data.length : ℕ) : ℤ) ≤ 0 := by omega
  rw [readFrameDataInto, hsize, heq, ok_bind]
  dsimp only
  rw [if_neg hnot, Int.toNat_natCast, asInt, if_pos hint]
  rfl

/-- Complete reads do not cut into anything. -/
theorem uncut_nil (ns : List ℕ) : uncut ns [] = true := by
  induction ns with
  | nil => rfl
  | cons n ns ih =>
      rw [uncut]
      split_ifs
      · exact ih
      · rw [Bool.and_eq_true, decide_eq_true_eq]
        exact ⟨Nat.le_succ n, ih⟩

/-- **A frame arrives as it was sent.** Whatever the flags, the opcode, the key and the payload of
1 to `2 ^ 31 - 1` bytes, wherever it lies in its buffer: what a websocket writes for it on a stream
that takes complete writes is read by the other end, under reads that do not cut into the parts of
the header, as the same header fields and, into an empty buffer, as the same payload; and what is
behind it stays on the stream. -/
theorem frame_round_trip (ws : Websocket) (hfresh : ws.headerSent = false) (fin : Bool)
    (opcode : Opcode) (key : UInt32) (payload : Buffer) (hwf : payload.WF)
    (hpos : 1 ≤ payload.unread.length) (hint : payload.unread.length < 2 ^ 31)
    (recvBuf : Buffer) (hrecv : recvBuf.WF) (hempty : recvBuf.unread = [])
    (hcap : recvBuf.capacity * 2 + payload.unread.length < 2 ^ 64) (junk : Vector UInt8 8)
    (junk' : ℕ → UInt8) :
    ∃ ws' payload' frame,
      (ws.setFrame fin opcode key payload.unread.length).sendFrameData (some payload) {} =
        .ok (true, ws', some payload', { written := frame, answers := [] }) ∧
      ∀ (src : Source) (rest : List UInt8), src.bytes = frame ++ rest →
        uncut (headParts src.bytes) src.cuts = true →
        ∃ h recvBuf' src' cuts, readFrameHead junk src = some (true, h, src') ∧
          h.fin = fin ∧ h.opcode = opcode ∧ h.mask = (key != 0) ∧
          h.payloadLen = payload.unread.length ∧
          readFrameDataInto h recvBuf src' junk' = .ok (some ((payload.unread.length : ℤ),
            recvBuf', { src with bytes := rest, cuts := cuts })) ∧
          recvBuf'.unread = payload.unread := by
  have hne : payload.unread ≠ [] := List.length_pos_iff.mp hpos
  have hfresh' : (ws.setFrame fin opcode key payload.unread.length).headerSent = false := hfresh
  have hout : ({} : Outlet).answers = [] := rfl
  obtain ⟨ws', payload', hsend, -⟩ := Websocket.sendFrameData_fresh hfresh' hwf hne hout
  refine ⟨ws', payload', _, hsend, ?_⟩
  intro src rest hsrc hcut
  let h := (ws.setFrame fin opcode key payload.unread.length).header
  let data := if h.mask then xorMask h.maskingKey.reverse payload.unread.length payload.unread
    else payload.unread
  have hdata : data.length = payload.unread.length := by
    change (if h.mask then _ else _ : List UInt8).length = _
    split_ifs
    · exact length_xorMask ..
    · rfl
  have hbytes : src.bytes = h.makeFrameHeader ++ (data ++ rest) := by
    rw [hsrc, ← List.append_assoc]
    rfl
  have hkey : h.maskingKey.length = 4 := by
    change (hostBytes 4 key.toNat).length = 4
    rw [hostBytes, List.length_reverse, length_beBytes]
  have hlen64 : h.payloadLen < 2 ^ 64 := Nat.lt_trans hint (by decide)
  have hhead := rfcHead_makeFrameHeader h (data ++ rest) hlen64 hkey
  rw [← hbytes] at hhead
  obtain ⟨cuts, -, hread⟩ := readFrameHead_eq junk hhead hcut
  have hrest : ({ src with bytes := data ++ rest, cuts := cuts } : Source).bytes = data ++ rest :=
    rfl
  obtain ⟨recvBuf', cuts', hbody, hun⟩ := readFrameDataInto_eq
    (h := { h with rsv1 := false, rsv2 := false, rsv3 := false, maskingKey :=
      if h.mask then h.maskingKey.reverse else [0, 0, 0, 0] })
    hrecv hempty hdata.symm (List.length_pos_iff.mp (by omega)) (by omega) (by omega) hrest junk'
  rw [hdata] at hbody hun
  refine ⟨_, recvBuf', _, cuts', hread, rfl, rfl, rfl, rfl, hbody, ?_⟩
  rw [hun]
  cases hmask : h.mask with
  | false => simp only [data, hmask, Bool.false_eq_true, if_false]
  | true => simp only [data, hmask, if_true, xorMask_xorMask]

/-- A masked text frame of two bytes, read into a buffer without any room. -/
theorem frame_round_trip_masked :
    ∃ ws' payload' frame h recvBuf' src' cuts,
      (({} : Websocket).setFrame true .text 0x01020304 2).sendFrameData
          (some ⟨[0, 7, 8], 3, 1, 3, 1⟩) {} =
        .ok (true, ws', some payload', { written := frame, answers := [] }) ∧
      readFrameHead (Vector.replicate 8 0) { bytes := frame ++ [9] } = some (true, h, src') ∧
      h.mask = true ∧
      readFrameDataInto h ⟨[], 0, 0, 0, 0⟩ src' (fun _ => 0) =
        .ok (some (2, recvBuf', { bytes := [9], cuts := cuts })) ∧
      recvBuf'.unread = [7, 8] := by
  have hwf : WF ⟨[0, 7, 8], 3, 1, 3, 1⟩ := ⟨by decide, by decide, by decide, rfl, by decide⟩
  have hrecv : WF ⟨[], 0, 0, 0, 0⟩ := ⟨by decide, by decide, by decide, rfl, by decide⟩
  obtain ⟨ws', payload', frame, hsend, hback⟩ := frame_round_trip {} rfl true .text 0x01020304
    ⟨[0, 7, 8], 3, 1, 3, 1⟩ hwf (by decide) (by decide) ⟨[], 0, 0, 0, 0⟩ hrecv rfl (by decide)
    (Vector.replicate 8 0) (fun _ => 0)
  obtain ⟨h, recvBuf', src', cuts, hread, -, -, hmask, -, hbody, hun⟩ :=
    hback { bytes := frame ++ [9] } [9] rfl (uncut_nil _)
  exact ⟨ws', payload', frame, h, recvBuf', src', cuts, hsend, hread, hmask, hbody, hun⟩

end Coin

end ArchNet

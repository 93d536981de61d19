import ArchNet.WebSocket

/-!
# The WebSocket Receive Loop

One call of `recv_loop` reads one frame: the header, then, for a data frame, the payload
into the buffer that the calls share. A frame that is not final leaves its opcode in
`opcode_`; a final CONTINUATION takes it from there; every final frame clears it. A final
data frame hands the buffer over and leaves an empty one.

`WebSocketConnection::recv_loop` and `StreamingConnection::recv_loop` are the same code but
for the decoder of the header and for what they do with a PING, a PONG, a CLOSE and a
message; these are the fields of an `Endpoint`. `coin` hands a message to `OnMessage` with
its kind, `robin` pushes it to `inbox_` without, and a null marks the end there.

## Conventions

The payload length is 64 bits wide and the parameter of `ReadNFromSocketStream` 32, so
`read_frame_data` asks for the length modulo `2 ^ 32`; its `int` result is the count
wrapped to 32 bits. The counter of the unmasking loop is an `int` as well; past `2 ^ 31`
bytes its overflow is undefined, and the model lets it run on. The unmasking starts at the
first byte of the buffer, not at the first byte read.

## Main results

* `recvLoop_head`, `recvData_taken`, `recvData_refused`: what a call does with a frame whose
  header it has read.
* `recvLoop_advances_iff`: **frame synchronisation** — for a frame whose payload is there,
  exactly when a call that answers `true` has left the stream behind the frame.
-/

namespace ArchNet

open Bytes

/-! ### Reading the payload -/

/-- The unmasking loop: the first `n` bytes, each with a byte of the key. -/
def xorMask (key : List UInt8) (n : ℕ) (buffer : List UInt8) : List UInt8 :=
  buffer.mapIdx fun i b => if i < n then b ^^^ key.getD (i % 4) 0 else b

/-- The buffer after the payload of a frame has been appended to it and `n` bytes were
read: unmasked when the frame is masked. -/
def unmask (h : FrameHeader) (n : ℕ) (buffer : List UInt8) : List UInt8 :=
  if h.mask then xorMask h.maskingKey n buffer else buffer

/-- `websocket::read_frame_data`: the returned value, the buffer, and the stream left
behind. -/
def readFrameData (h : FrameHeader) (buffer : List UInt8) (src : Source) :
    Option (ℤ × List UInt8 × Source) := do
  let (ret, got, src') ← readNFromSocketStream src (h.payloadLen % 2 ^ 32)
  if ret ≤ 0 then some (-1, buffer ++ got, src')
  else some (asInt ret.toNat, unmask h ret.toNat (buffer ++ got), src')

/-! ### The loop -/

/-- What the calls of `recv_loop` share: `opcode_` and the buffer. -/
structure LoopState where
  opcode : Opcode := .continuation
  buffer : List UInt8 := []
  deriving Repr, DecidableEq

/-- What differs between the two receive loops: the decoder, the answers to a PING and a
PONG, and what is done on a CLOSE and with a message and its kind (`true` for text). -/
structure Endpoint (ε : Type) where
  readFrameHead : Source → Option (Bool × FrameHeader × Source)
  onPing : Bool
  onPong : Bool
  onClose : ε
  onMessage : List UInt8 → Bool → ε

/-- What a call of `recv_loop` comes to: its answer, the shared state, what was handed to
the application, and the stream left behind. -/
structure LoopResult (ε : Type) where
  ok : Bool
  state : LoopState
  events : List ε
  src : Source

/-- The opcode on which `recv_loop` switches: a final CONTINUATION stands for the saved
one. -/
def effectiveOpcode (st : LoopState) (h : FrameHeader) : Opcode :=
  if h.fin ∧ h.opcode = .continuation then st.opcode else h.opcode

/-- A frame that is not final saves its opcode, unless it is a CONTINUATION. -/
def saveOpcode (st : LoopState) (h : FrameHeader) : LoopState :=
  if h.fin = false ∧ h.opcode ≠ .continuation then { st with opcode := h.opcode } else st

/-- The end of `recv_loop`: a final frame clears the saved opcode. -/
def finishFrame (st : LoopState) (h : FrameHeader) : LoopState :=
  if h.fin then { st with opcode := .continuation } else st

section Loop

variable {ε : Type}

/-- The branches FRAME_TEXT and FRAME_BINARY. The message leaves in the swapped buffer, and
what came in its place is reset. -/
def recvData (e : Endpoint ε) (text : Bool) (h : FrameHeader) (st : LoopState) (src : Source) :
    Option (LoopResult ε) := do
  let (ret, buffer, src') ← readFrameData h st.buffer src
  if ret ≤ 0 then some ⟨false, { st with buffer := buffer }, [], src'⟩
  else if h.fin then
    some ⟨true, finishFrame { st with buffer := [] } h, [e.onMessage buffer text], src'⟩
  else some ⟨true, finishFrame { st with buffer := buffer } h, [], src'⟩

/-- `recv_loop`, with the parts that differ taken from the endpoint. -/
def recvLoop (e : Endpoint ε) (st : LoopState) (src : Source) : Option (LoopResult ε) := do
  let (ok, h, src') ← e.readFrameHead src
  if ok then
    let st' := saveOpcode st h
    match effectiveOpcode st h with
    | .ping => some ⟨e.onPing, finishFrame st' h, [], src'⟩
    | .pong => some ⟨e.onPong, finishFrame st' h, [], src'⟩
    | .close => some ⟨false, st', [e.onClose], src'⟩
    | .text => recvData e true h st' src'
    | .binary => recvData e false h st' src'
    | _ => some ⟨false, finishFrame st' h, [], src'⟩
  else some ⟨false, st, [], src'⟩

end Loop

/-- What `WebSocketConnection` hands to its callbacks. -/
inductive WebSocketEvent
  | onMessage (payload : List UInt8) (text : Bool)
  | onClose
  deriving Repr, DecidableEq

/-- The `coin` endpoint in one call: what the decoder's array holds, and what `OnPing` and
`OnPong` answer if they are called. -/
def Coin.endpoint (junk : Vector UInt8 8) (onPing onPong : Bool) : Endpoint WebSocketEvent where
  readFrameHead := Coin.readFrameHead junk
  onPing := onPing
  onPong := onPong
  onClose := .onClose
  onMessage := .onMessage

/-- `WebSocketConnection::recv_loop`. -/
def Coin.recvLoop (junk : Vector UInt8 8) (onPing onPong : Bool) :
    LoopState → Source → Option (LoopResult WebSocketEvent) :=
  ArchNet.recvLoop (Coin.endpoint junk onPing onPong)

/-- The `robin` endpoint: what it hands over are the entries of `inbox_`, `none` for the
null that marks the end. -/
def Robin.endpoint : Endpoint (Option (List UInt8)) where
  readFrameHead := Robin.readFrameHead
  onPing := true
  onPong := true
  onClose := none
  onMessage := fun payload _ => some payload

/-- `StreamingConnection::recv_loop`. -/
def Robin.recvLoop : LoopState → Source → Option (LoopResult (Option (List UInt8))) :=
  ArchNet.recvLoop Robin.endpoint

/-! ### What a call does with a frame -/

/-- A payload whose length wraps to zero is not read. -/
theorem readFrameData_zero {h : FrameHeader} (hn : h.payloadLen % 2 ^ 32 = 0)
    (buffer : List UInt8) (src : Source) :
    readFrameData h buffer src = some (-1, buffer, src) := by
  simp only [readFrameData, hn, readNFromSocketStream_zero, Option.bind_eq_bind,
    Option.bind_some, le_refl, if_true, List.append_nil]

/-- A payload that is there is read, under any segmentation, up to its length modulo
`2 ^ 32`. -/
theorem readFrameData_eq {h : FrameHeader} {n : ℕ} (hn : h.payloadLen % 2 ^ 32 = n)
    (hpos : 0 < n) (buffer : List UInt8) {src : Source} (hlen : n ≤ src.bytes.length) :
    ∃ cuts, cuts <:+ src.cuts ∧ readFrameData h buffer src =
      some (asInt n, unmask h n (buffer ++ src.bytes.take n),
        { src with bytes := src.bytes.drop n, cuts := cuts }) := by
  obtain ⟨cuts, hread⟩ := readNFromSocketStream_eq hpos hlen
  have hnot : ¬ ((n : ℤ) ≤ 0) := by omega
  refine ⟨cuts, readNFromSocketStream_cuts hread, ?_⟩
  simp only [readFrameData, hn, hread, Option.bind_eq_bind, Option.bind_some, if_neg hnot,
    Int.toNat_natCast]

/-- The `int` result of a read is positive below `2 ^ 31` only. -/
theorem asInt_le_zero_iff {n : ℕ} (hpos : 0 < n) (hlt : n < 2 ^ 32) :
    asInt n ≤ 0 ↔ 2 ^ 31 ≤ n := by
  rw [asInt]
  split_ifs with h
  · omega
  · omega

section Loop

variable {ε : Type} (e : Endpoint ε) (text : Bool) {h : FrameHeader} (st : LoopState)

/-- A data frame whose length, modulo `2 ^ 32`, is zero or at least `2 ^ 31` fails. -/
theorem recvData_refused {src : Source} (hpres : h.payloadLen % 2 ^ 32 ≤ src.bytes.length)
    (hn : h.payloadLen % 2 ^ 32 = 0 ∨ 2 ^ 31 ≤ h.payloadLen % 2 ^ 32) :
    ∃ st' src', recvData e text h st src = some ⟨false, st', [], src'⟩ := by
  rw [recvData]
  by_cases h0 : h.payloadLen % 2 ^ 32 = 0
  · rw [readFrameData_zero h0]
    exact ⟨_, _, rfl⟩
  · obtain ⟨cuts, -, hread⟩ := readFrameData_eq rfl (by omega) st.buffer hpres
    have hle : asInt (h.payloadLen % 2 ^ 32) ≤ 0 :=
      (asInt_le_zero_iff (by omega) (by omega)).mpr (by omega)
    simp only [hread, Option.bind_eq_bind, Option.bind_some, if_pos hle]
    exact ⟨_, _, rfl⟩

/-- A data frame whose payload is not all there fails, once the stream has ended. -/
theorem recvData_short {src : Source} (hshort : src.bytes.length < h.payloadLen % 2 ^ 32)
    {r : LoopResult ε} (hr : recvData e text h st src = some r) :
    r.ok = false ∧ r.events = [] := by
  simp only [recvData, readFrameData, Option.bind_eq_bind, Option.bind_eq_some_iff] at hr
  obtain ⟨res, ⟨⟨ret, got, src'⟩, hread, hres⟩, hr⟩ := hr
  obtain ⟨ending, cuts, -, heq⟩ := readNFromSocketStream_short hshort hread
  obtain ⟨rfl, -⟩ : ret = ending.answer ∧ _ := by simpa using heq
  rw [if_pos ending.answer_le] at hres
  obtain rfl := Option.some.inj hres
  have hle : (-1 : ℤ) ≤ 0 := by decide
  rw [if_pos hle] at hr
  obtain rfl := Option.some.inj hr
  exact ⟨rfl, rfl⟩

/-- What a data frame leaves behind: the message handed over if it is final, the bytes read
so far in the buffer if it is not. -/
def afterData (onMessage : List UInt8 → Bool → ε) (text : Bool) (h : FrameHeader)
    (st : LoopState) (buffer : List UInt8) : LoopState × List ε :=
  if h.fin then (finishFrame { st with buffer := [] } h, [onMessage buffer text])
  else (finishFrame { st with buffer := buffer } h, [])

/-- A data frame whose length, modulo `2 ^ 32`, is positive and below `2 ^ 31` is taken, and
that many bytes are read. -/
theorem recvData_taken {src : Source} {n : ℕ} (hn : h.payloadLen % 2 ^ 32 = n)
    (hpos : 0 < n) (hlt : n < 2 ^ 31) (hpres : n ≤ src.bytes.length) :
    ∃ cuts, cuts <:+ src.cuts ∧
      recvData e text h st src =
        some ⟨true,
          (afterData e.onMessage text h st (unmask h n (st.buffer ++ src.bytes.take n))).1,
          (afterData e.onMessage text h st (unmask h n (st.buffer ++ src.bytes.take n))).2,
          { src with bytes := src.bytes.drop n, cuts := cuts }⟩ := by
  obtain ⟨cuts, hsuf, hread⟩ := readFrameData_eq hn hpos st.buffer hpres
  refine ⟨cuts, hsuf, ?_⟩
  have hnot : ¬ asInt n ≤ 0 := by
    rw [asInt_le_zero_iff hpos (by omega)]
    omega
  rw [recvData, afterData]
  cases hf : h.fin with
  | false => simp only [hread, Option.bind_eq_bind, Option.bind_some, if_neg hnot,
      Bool.false_eq_true, if_false]
  | true => simp only [hread, Option.bind_eq_bind, Option.bind_some, if_neg hnot, if_true]

/-- A call whose header has been read, from the switch on. -/
theorem recvLoop_head {src src' : Source}
    (hread : e.readFrameHead src = some (true, h, src')) :
    recvLoop e st src =
      match effectiveOpcode st h with
      | .ping => some ⟨e.onPing, finishFrame (saveOpcode st h) h, [], src'⟩
      | .pong => some ⟨e.onPong, finishFrame (saveOpcode st h) h, [], src'⟩
      | .close => some ⟨false, saveOpcode st h, [e.onClose], src'⟩
      | .text => recvData e true h (saveOpcode st h) src'
      | .binary => recvData e false h (saveOpcode st h) src'
      | _ => some ⟨false, finishFrame (saveOpcode st h) h, [], src'⟩ := by
  simp only [recvLoop, hread, Option.bind_eq_bind, Option.bind_some, if_true]

/-! ### Frame synchronisation -/

/-- A call that answers `true` has left the stream at `rest`. -/
def AdvancesTo (rest : List UInt8) (res : Option (LoopResult ε)) : Prop :=
  ∀ r, res = some r → r.ok = true → r.src.bytes = rest

/-- The frames after which a call that answers `true` is **in step** with the stream: a
control frame without payload, and a data frame whose length fits in 32 bits or is one that
the call refuses. -/
def InStep (op : Opcode) (payloadLen : ℕ) : Prop :=
  match op with
  | .ping | .pong => payloadLen = 0
  | .text | .binary =>
      payloadLen < 2 ^ 32 ∨ payloadLen % 2 ^ 32 = 0 ∨ 2 ^ 31 ≤ payloadLen % 2 ^ 32
  | _ => True

/-- The data branches are in step exactly for the lengths that fit or are refused. -/
theorem recvData_advances_iff {src : Source} (hpres : h.payloadLen ≤ src.bytes.length) :
    AdvancesTo (src.bytes.drop h.payloadLen) (recvData e text h st src) ↔
      h.payloadLen < 2 ^ 32 ∨ h.payloadLen % 2 ^ 32 = 0 ∨ 2 ^ 31 ≤ h.payloadLen % 2 ^ 32 := by
  have hmod : h.payloadLen % 2 ^ 32 ≤ h.payloadLen := Nat.mod_le _ _
  by_cases hn : h.payloadLen % 2 ^ 32 = 0 ∨ 2 ^ 31 ≤ h.payloadLen % 2 ^ 32
  · obtain ⟨st', src', hrun⟩ := recvData_refused e text st (le_trans hmod hpres) hn
    rw [hrun]
    refine ⟨fun _ => .inr hn, fun _ r hr hok => ?_⟩
    obtain rfl := Option.some.inj hr
    exact absurd hok Bool.false_ne_true
  · obtain ⟨cuts, -, hrun⟩ := recvData_taken e text st rfl (by omega) (by omega)
      (le_trans hmod hpres)
    rw [hrun]
    constructor
    · intro hadv
      have hdrop := congrArg List.length (hadv _ rfl rfl)
      simp only [List.length_drop] at hdrop
      omega
    · rintro (hlt | hn')
      · intro r hr _
        obtain rfl := Option.some.inj hr
        simp only [Nat.mod_eq_of_lt hlt]
      · exact absurd hn' hn

/-- A control branch with the answer `ok` reads no payload. -/
theorem control_advances_iff {ok : Bool} {st' : LoopState} {src : Source} {len : ℕ}
    (hpres : len ≤ src.bytes.length) :
    AdvancesTo (src.bytes.drop len) (some (⟨ok, st', [], src⟩ : LoopResult ε)) ↔
      ok = false ∨ len = 0 := by
  constructor
  · intro hadv
    cases ok with
    | false => exact .inl rfl
    | true =>
        have hdrop := congrArg List.length (hadv _ rfl rfl)
        simp only [List.length_drop] at hdrop
        exact .inr (by omega)
  · rintro (rfl | rfl) r hr hok
    · obtain rfl := Option.some.inj hr
      exact absurd hok Bool.false_ne_true
    · obtain rfl := Option.some.inj hr
      rfl

/-- A call is in step with the stream for the frames of `InStep`; and, when the callbacks
answer `true`, for no others. -/
theorem recvLoop_advances {src src' : Source}
    (hread : e.readFrameHead src = some (true, h, src'))
    (hpres : h.payloadLen ≤ src'.bytes.length) :
    (InStep (effectiveOpcode st h) h.payloadLen →
        AdvancesTo (src'.bytes.drop h.payloadLen) (recvLoop e st src)) ∧
      (e.onPing = true → e.onPong = true →
        AdvancesTo (src'.bytes.drop h.payloadLen) (recvLoop e st src) →
        InStep (effectiveOpcode st h) h.payloadLen) := by
  have hrefused : ∀ {res : Option (LoopResult ε)} {st' evs},
      res = some ⟨false, st', evs, src'⟩ →
      AdvancesTo (src'.bytes.drop h.payloadLen) res := by
    rintro _ st' evs rfl r hr hok
    obtain rfl := Option.some.inj hr
    exact absurd hok Bool.false_ne_true
  rw [recvLoop_head e st hread]
  cases hop : effectiveOpcode st h with
  | ping =>
      refine ⟨fun hin => (control_advances_iff hpres).mpr (.inr hin), fun hping _ hadv => ?_⟩
      exact ((control_advances_iff hpres).mp hadv).resolve_left (by simp [hping])
  | pong =>
      refine ⟨fun hin => (control_advances_iff hpres).mpr (.inr hin), fun _ hpong hadv => ?_⟩
      exact ((control_advances_iff hpres).mp hadv).resolve_left (by simp [hpong])
  | text | binary =>
      exact ⟨(recvData_advances_iff e _ _ hpres).mpr,
        fun _ _ => (recvData_advances_iff e _ _ hpres).mp⟩
  | _ => exact ⟨fun _ => hrefused rfl, fun _ _ _ => trivial⟩

end Loop

/-- **Frame synchronisation.** For a frame whose header arrives in whole parts and whose
payload is there, in both loops and whatever state they are in: a call that answers `true`
has left the stream right behind the frame, if and only if a control frame has no payload
and a data frame has a length below `2 ^ 32` or one that the call refuses. -/
theorem recvLoop_advances_iff (st : LoopState) {src : Source} {h : FrameHeader}
    {rest : List UInt8} (hd : rfcHead src.bytes = some (h, rest))
    (hcut : uncut (headParts src.bytes) src.cuts = true)
    (hpres : h.payloadLen ≤ rest.length) :
    ((∀ junk onPing onPong,
        AdvancesTo (rest.drop h.payloadLen) (Coin.recvLoop junk onPing onPong st src)) ∧
      AdvancesTo (rest.drop h.payloadLen) (Robin.recvLoop st src)) ↔
    InStep (effectiveOpcode st h) h.payloadLen := by
  constructor
  · rintro ⟨-, hrobin⟩
    obtain ⟨cuts, -, hread⟩ := Robin.readFrameHead_eq hd hcut
    exact (recvLoop_advances Robin.endpoint st hread hpres).2 rfl rfl hrobin
  · intro hin
    constructor
    · intro junk onPing onPong
      obtain ⟨cuts, -, hread⟩ := Coin.readFrameHead_eq junk hd hcut
      exact (recvLoop_advances (Coin.endpoint junk onPing onPong) st hread hpres).1 hin
    · obtain ⟨cuts, -, hread⟩ := Robin.readFrameHead_eq hd hcut
      exact (recvLoop_advances Robin.endpoint st hread hpres).1 hin

/-- A masked binary frame of two bytes, with the next frame behind it. -/
theorem recvLoop_advances_masked :
    AdvancesTo [0x89, 0x00]
      (Robin.recvLoop {} { bytes := [0x82, 0x82, 1, 2, 3, 4, 9, 9, 0x89, 0x00] }) :=
  ((@recvLoop_advances_iff {} { bytes := [0x82, 0x82, 1, 2, 3, 4, 9, 9, 0x89, 0x00] }
    ⟨true, false, false, false, .binary, true, 2, [1, 2, 3, 4]⟩ [9, 9, 0x89, 0x00]
    (by decide) (by decide) (by decide)).mpr (Or.inl (by decide))).2

/-- A PING with one byte of payload leaves that byte to be read as a header. -/
theorem ping_payload_left :
    ¬ ∀ (st : LoopState) (src : Source) (h : FrameHeader) (rest : List UInt8),
      rfcHead src.bytes = some (h, rest) → uncut (headParts src.bytes) src.cuts = true →
      h.payloadLen ≤ rest.length →
      (∀ junk onPing onPong,
        AdvancesTo (rest.drop h.payloadLen) (Coin.recvLoop junk onPing onPong st src)) ∧
      AdvancesTo (rest.drop h.payloadLen) (Robin.recvLoop st src) := by
  intro hall
  have hadv := (hall {} { bytes := [0x89, 0x01, 7] }
    ⟨true, false, false, false, .ping, false, 1, [0, 0, 0, 0]⟩ [7] (by decide) rfl
    (by decide)).2
  have hrun : Robin.recvLoop {} { bytes := [0x89, 0x01, 7] } =
      some ⟨true, {}, [], { bytes := [7] }⟩ := by rfl
  exact absurd (hadv _ hrun rfl) (by decide)

end ArchNet

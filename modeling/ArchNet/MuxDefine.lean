import ArchNet.Bytes
import ArchNet.SocketStream

/-!
# The Multiplexing Wire Format

The twelve-byte header of `mux_define.h` — a zero magic byte, the message type, and the
big-endian flags, stream id and length — with the two sides of its codec: `Header.encode`
as the sender fills a buffer, `recvAndDecode` as the receive loop reads it back from the
socket. A `Frame` is a header with the bytes that follow it on the wire; only Data frames
carry any, and a frame is well formed when the header announces exactly what follows.

## Main results

* `length_encode`: a header is always twelve bytes.
* `Header.decode_encode`: **the header codec round-trips**, for every field value.
* `recvAndDecode_encode`: read from a socket under any segmentation, the bytes of a header
  give that header back and nothing more is consumed.
-/

namespace ArchNet

open Bytes

/-- `HeaderSize`. -/
def headerSize : ℕ := 12

/-- `FLAGS_MaxStreamWindowSize`: 256 KiB. -/
def maxStreamWindowSize : UInt32 := 256 * 1024

/-- `enum MuxStreamType`: which end of the connection a session is. -/
inductive MuxStreamType
  | client
  | server
  deriving Repr, DecidableEq

/-- `enum MsgType`, in the order of its values `0` to `3`. -/
inductive MsgType
  | data
  | windowUpdate
  | ping
  | goAway
  deriving Repr, DecidableEq

namespace MsgType

/-- The byte that stands for a message type. -/
def toByte : MsgType → UInt8
  | data => 0
  | windowUpdate => 1
  | ping => 2
  | goAway => 3

/-- The message type of a byte; `none` above `typeGoAway`. -/
def ofByte? (b : UInt8) : Option MsgType :=
  if b = 0 then some data
  else if b = 1 then some windowUpdate
  else if b = 2 then some ping
  else if b = 3 then some goAway
  else none

@[simp] theorem ofByte?_toByte (t : MsgType) : ofByte? t.toByte = some t := by
  cases t <;> rfl

end MsgType

/-! ### Flags -/

/-- `flagSYN`. -/
def flagSYN : UInt16 := 1

/-- `flagACK`. -/
def flagACK : UInt16 := 2

/-- `flagFIN`. -/
def flagFIN : UInt16 := 4

/-- `flagRST`. -/
def flagRST : UInt16 := 8

/-- The test `(flags & f) == f`. -/
def hasFlag (flags f : UInt16) : Bool := flags &&& f == f

/-- `goAwayNormal`. -/
def goAwayNormal : UInt32 := 0

/-- `goAwayProtoErr`. -/
def goAwayProtoErr : UInt32 := 1

/-! ### The header -/

/-- `class Header`: the fields that `encode` writes and `recv_and_decode` reads. -/
structure Header where
  msgType : MsgType
  flags : UInt16
  streamId : UInt32
  length : UInt32
  deriving Repr, DecidableEq

/-- `Header::encode`: magic, type, flags, stream id, length, in network order. -/
def Header.encode (h : Header) : List UInt8 :=
  [0, h.msgType.toByte] ++ beBytes 2 h.flags.toNat ++ beBytes 4 h.streamId.toNat
    ++ beBytes 4 h.length.toNat

@[simp] theorem length_encode (h : Header) : h.encode.length = headerSize := by
  simp [Header.encode, headerSize]

/-- The reads of `recv_and_decode` on the bytes of a header: the status it returns and, on
success, the header. A wrong magic byte answers `-1`, an unknown type `-2`. -/
def Header.decode (l : List UInt8) : ℤ × Option Header :=
  if l.headD 0 ≠ 0 then (-1, none)
  else match MsgType.ofByte? (l.getD 1 0) with
    | none => (-2, none)
    | some t => (1, some
        { msgType := t
          flags := UInt16.ofNat (beVal ((l.drop 2).take 2))
          streamId := UInt32.ofNat (beVal ((l.drop 4).take 4))
          length := UInt32.ofNat (beVal ((l.drop 8).take 4)) })

/-- **The header codec round-trips.** -/
theorem Header.decode_encode (h : Header) : Header.decode h.encode = (1, some h) := by
  obtain ⟨t, fl, id, len⟩ := h
  have hfl : beVal (beBytes 2 fl.toNat) = fl.toNat := by
    rw [beVal_beBytes]; exact Nat.mod_eq_of_lt fl.toNat_lt
  have hid : beVal (beBytes 4 id.toNat) = id.toNat := by
    rw [beVal_beBytes]; exact Nat.mod_eq_of_lt id.toNat_lt
  have hlen : beVal (beBytes 4 len.toNat) = len.toNat := by
    rw [beVal_beBytes]; exact Nat.mod_eq_of_lt len.toNat_lt
  -- the three field slices of the twelve bytes
  have hover : (beBytes 2 fl.toNat).drop 6 = [] := List.drop_eq_nil_of_le (by simp)
  have hlast : (beBytes 4 len.toNat).take 4 = beBytes 4 len.toNat :=
    List.take_of_length_le (by simp)
  simp [Header.decode, Header.encode, List.drop_append, hfl, hid, hlen,
    hover, hlast]

/-- `Header::recv_and_decode`: reads a header from the socket. The status, the header the
variable holds afterwards, and the stream left behind; `none` while the read blocks. -/
def recvAndDecode (old : Header) (src : Source) : Option (ℤ × Header × Source) := do
  let (n, bytes, src') ← readNFromSocketStream src headerSize
  if n ≤ 0 then some (-1, old, src')
  else
    let (ret, hdr?) := Header.decode bytes
    some (ret, hdr?.getD old, src')

/-- Read under any segmentation, the bytes of a header give that header back, and nothing
after it is consumed. -/
theorem recvAndDecode_encode {h : Header} {old : Header} {src : Source}
    {rest : List UInt8} (hb : src.bytes = h.encode ++ rest) :
    ∃ cuts, recvAndDecode old src =
      some (1, h, { src with bytes := rest, cuts := cuts }) := by
  have hlen : headerSize ≤ src.bytes.length := by
    rw [hb, List.length_append, length_encode]; omega
  obtain ⟨cuts, hread⟩ := readNFromSocketStream_eq (by decide : 0 < headerSize) hlen
  refine ⟨cuts, ?_⟩
  have hpos : ¬ ((headerSize : ℤ) ≤ 0) := by decide
  have htake : src.bytes.take headerSize = h.encode := by
    rw [hb, ← length_encode h, List.take_left']
    rfl
  have hdrop : src.bytes.drop headerSize = rest := by
    rw [hb, ← length_encode h, List.drop_left']
    rfl
  simp only [recvAndDecode, hread, Option.bind_eq_bind, Option.bind_some, if_neg hpos, htake,
    hdrop, Header.decode_encode, Option.getD_some]

/-! ### Frames -/

/-- A frame as `send_message` is given it: the header, and the body if there is one. -/
structure Frame where
  hdr : Header
  body : Option (List UInt8) := none
  deriving Repr, DecidableEq

/-- The bytes that follow the header on the wire. -/
def Frame.payload (f : Frame) : List UInt8 := f.body.getD []

/-- The frame on the wire. -/
def Frame.bytes (f : Frame) : List UInt8 := f.hdr.encode ++ f.payload

/-- A frame is **well formed** when its header announces exactly the bytes that follow:
`length` bytes behind a Data header, none behind any other. -/
def Frame.WellFormed (f : Frame) : Prop :=
  f.payload.length = if f.hdr.msgType = .data then f.hdr.length.toNat else 0

instance (f : Frame) : Decidable f.WellFormed := by
  unfold Frame.WellFormed; infer_instance

/-- The wire image of a sequence of frames. -/
def framesBytes (fs : List Frame) : List UInt8 := (fs.map Frame.bytes).flatten

@[simp] theorem framesBytes_nil : framesBytes [] = [] := rfl

@[simp] theorem framesBytes_cons (f : Frame) (fs : List Frame) :
    framesBytes (f :: fs) = f.bytes ++ framesBytes fs := by
  simp [framesBytes]

@[simp] theorem framesBytes_append (fs gs : List Frame) :
    framesBytes (fs ++ gs) = framesBytes fs ++ framesBytes gs := by
  simp [framesBytes]

end ArchNet

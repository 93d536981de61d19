import ArchNet.Bytes
import ArchNet.SocketStream

/-!
# WebSocket Frame Headers

The frame header shared by the two classes named `websocket` — `coin::websocket`, under the
HTTP server's WebSocket endpoint, and `robin::websocket`, under RPC streaming — with the
encoder, which is the same code in both, and the two separately written decoders.

`rfcHead` is the format itself, RFC 6455: two bytes, then an extended length of two or
eight bytes when the seven-bit length is `126` or `127`, then a four-byte key when the mask
bit is set. It splits a byte string that begins with a complete header into the header and
the bytes behind it, and is what the decoders are measured against.

## Conventions

The masking key is only ever used through its four bytes in memory, so the field holds
these. The stack array `unsigned char buf[8]` of the `coin` decoder is not initialised;
what it holds is the argument `junk`. A read that blocks is `none`.

## Main results

* `rfcHead_makeFrameHeader`: **the encoder writes the format** — the bytes of
  `make_frame_header` parse back to the header they were made from.
* `Coin.readFrameHead_eq`, `Robin.readFrameHead_eq`: a complete header whose parts arrive
  whole is decoded as the format says; an unmasked one is, by `robin`, under every
  segmentation (`Robin.readFrameHead_unmasked`).
* `readFrameHead_decodes_iff`: **exactly then** — `coin` never answers `false` at the end
  of the stream, and takes whatever one `recv` returns for a whole part.
-/

namespace ArchNet

open Bytes

/-! ### The header -/

/-- The opcodes of the enumeration `FRAME_…`, in the order of their values `0` to `15`. -/
inductive Opcode
  | continuation
  | text
  | binary
  | rsv3
  | rsv4
  | rsv5
  | rsv6
  | rsv7
  | close
  | ping
  | pong
  | ctlRsvB
  | ctlRsvC
  | ctlRsvD
  | ctlRsvE
  | ctlRsvF
  deriving Repr, DecidableEq

namespace Opcode

/-- The value of an opcode. -/
def toByte : Opcode → UInt8
  | continuation => 0x00
  | text => 0x01
  | binary => 0x02
  | rsv3 => 0x03
  | rsv4 => 0x04
  | rsv5 => 0x05
  | rsv6 => 0x06
  | rsv7 => 0x07
  | close => 0x08
  | ping => 0x09
  | pong => 0x0A
  | ctlRsvB => 0x0B
  | ctlRsvC => 0x0C
  | ctlRsvD => 0x0D
  | ctlRsvE => 0x0E
  | ctlRsvF => 0x0F

/-- The opcode a four-bit value stands for. -/
def ofNibble : ℕ → Opcode
  | 0 => continuation
  | 1 => text
  | 2 => binary
  | 3 => rsv3
  | 4 => rsv4
  | 5 => rsv5
  | 6 => rsv6
  | 7 => rsv7
  | 8 => close
  | 9 => ping
  | 10 => pong
  | 11 => ctlRsvB
  | 12 => ctlRsvC
  | 13 => ctlRsvD
  | 14 => ctlRsvE
  | _ => ctlRsvF

end Opcode

/-- `struct frame_header`. -/
structure FrameHeader where
  fin : Bool
  rsv1 : Bool
  rsv2 : Bool
  rsv3 : Bool
  opcode : Opcode
  mask : Bool
  payloadLen : ℕ
  maskingKey : List UInt8
  deriving Repr, DecidableEq

namespace FrameHeader

/-- `websocket::reset`, as far as it concerns the header. -/
def reset : FrameHeader where
  fin := false
  rsv1 := false
  rsv2 := false
  rsv3 := false
  opcode := .text
  mask := false
  payloadLen := 0
  maskingKey := [0, 0, 0, 0]

/-- `websocket::update_head_2bytes`. -/
def updateHead2bytes (h : FrameHeader) (ch1 ch2 : UInt8) : FrameHeader :=
  { h with
    fin := (ch1 >>> 7) &&& 0x01 != 0
    rsv1 := (ch1 >>> 6) &&& 0x01 != 0
    rsv2 := (ch1 >>> 5) &&& 0x01 != 0
    rsv3 := (ch1 >>> 4) &&& 0x01 != 0
    opcode := Opcode.ofNibble (ch1 &&& 0x0f).toNat
    mask := (ch2 >>> 7) &&& 0x01 != 0
    payloadLen := (ch2 &&& 0x7f).toNat }

/-- `header_buf_[0]` of `websocket::make_frame_header`. -/
def headByte1 (fin : Bool) (opcode : Opcode) : UInt8 :=
  (if fin then 0x80 else 0x00) ||| opcode.toByte

/-- `header_buf_[1]` of `websocket::make_frame_header`, with the seven-bit length `n`. -/
def headByte2 (mask : Bool) (n : ℕ) : UInt8 :=
  (if mask then 0x80 else 0x00) ||| UInt8.ofNat n

/-- `websocket::make_frame_header`: the bytes it puts into `header_buf_`. The reserved bits
of the header are not written. The key goes out most significant byte first, the reverse of
its bytes in memory. -/
def makeFrameHeader (h : FrameHeader) : List UInt8 :=
  let ch1 := headByte1 h.fin h.opcode
  (if h.payloadLen ≤ 125 then [ch1, headByte2 h.mask h.payloadLen]
    else if h.payloadLen ≤ 65535 then [ch1, headByte2 h.mask 126] ++ beBytes 2 h.payloadLen
    else [ch1, headByte2 h.mask 127] ++ beBytes 8 h.payloadLen)
    ++ (if h.mask then h.maskingKey.reverse else [])

end FrameHeader

/-! ### The format -/

/-- The bytes of extended length announced by the second byte of a header. -/
def extLen (b1 : UInt8) : ℕ :=
  if b1.toNat % 128 = 126 then 2 else if b1.toNat % 128 = 127 then 8 else 0

/-- The bytes of key announced by the second byte of a header. -/
def keyLen (b1 : UInt8) : ℕ := if b1.toNat.testBit 7 then 4 else 0

/-- The header that its first two bytes, its extended length and its key stand for. -/
def headOf (b0 b1 : UInt8) (ext key : List UInt8) : FrameHeader where
  fin := b0.toNat.testBit 7
  rsv1 := b0.toNat.testBit 6
  rsv2 := b0.toNat.testBit 5
  rsv3 := b0.toNat.testBit 4
  opcode := Opcode.ofNibble (b0.toNat % 16)
  mask := b1.toNat.testBit 7
  payloadLen := if extLen b1 = 0 then b1.toNat % 128 else beVal ext
  maskingKey := if b1.toNat.testBit 7 then key else [0, 0, 0, 0]

/-- **The header format of RFC 6455**: the header at the front of a byte string that begins
with a complete one, and the bytes behind it. -/
def rfcHead : List UInt8 → Option (FrameHeader × List UInt8)
  | b0 :: b1 :: rest =>
      if extLen b1 + keyLen b1 ≤ rest.length then
        some (headOf b0 b1 (rest.take (extLen b1)) ((rest.drop (extLen b1)).take (keyLen b1)),
          rest.drop (extLen b1 + keyLen b1))
      else none
  | _ => none

/-- A complete header at the front is its parts, one after the other. -/
theorem rfcHead_eq_some_iff {bytes rest : List UInt8} {h : FrameHeader} :
    rfcHead bytes = some (h, rest) ↔
      ∃ b0 b1 ext key, ext.length = extLen b1 ∧ key.length = keyLen b1 ∧
        bytes = b0 :: b1 :: (ext ++ (key ++ rest)) ∧ h = headOf b0 b1 ext key := by
  constructor
  · intro hd
    rcases bytes with - | ⟨b0, - | ⟨b1, tail⟩⟩
    · simp [rfcHead] at hd
    · simp [rfcHead] at hd
    · rw [rfcHead, Option.ite_none_right_eq_some, Option.some.injEq, Prod.mk.injEq] at hd
      obtain ⟨hlen, rfl, rfl⟩ := hd
      refine ⟨b0, b1, tail.take (extLen b1), (tail.drop (extLen b1)).take (keyLen b1),
        ?_, ?_, ?_, rfl⟩
      · rw [List.length_take]
        omega
      · rw [List.length_take, List.length_drop]
        omega
      · rw [← List.drop_drop, List.take_append_drop, List.take_append_drop]
  · rintro ⟨b0, b1, ext, key, hext, hkey, rfl, rfl⟩
    have hlen : extLen b1 + keyLen b1 ≤ (ext ++ (key ++ rest)).length := by
      simp only [List.length_append]
      omega
    rw [rfcHead, if_pos hlen, ← hext, ← hkey, ← List.drop_drop]
    simp only [List.take_left', List.drop_left']

/-! ### The encoder writes the format -/

/-- `(ch >> k) & 1` is a bit of the byte. -/
theorem shift_and_one_ne_zero (ch k : UInt8) :
    ((ch >>> k) &&& 0x01 != 0) = ch.toNat.testBit (k.toNat % 8) := by
  have hzero : (ch >>> k) &&& 0x01 = 0 ↔ ch.toNat >>> (k.toNat % 8) % 2 = 0 := by
    rw [← UInt8.toNat_inj, UInt8.toNat_and, UInt8.toNat_shiftRight]
    exact Eq.congr_left (Nat.and_one_is_mod _)
  have hbit : ch.toNat.testBit (k.toNat % 8) = false
      ↔ ch.toNat >>> (k.toNat % 8) % 2 = 0 := by
    rw [Nat.testBit_eq_decide_div_mod_eq, Nat.shiftRight_eq_div_pow, decide_eq_false_iff_not]
    omega
  rw [Bool.eq_iff_iff, bne_iff_ne, ne_eq, hzero, ← hbit, Bool.not_eq_false]

/-- `update_head_2bytes` reads the fields where the format has them. -/
theorem updateHead2bytes_eq (h : FrameHeader) (ch1 ch2 : UInt8) :
    h.updateHead2bytes ch1 ch2 =
      { h with
        fin := ch1.toNat.testBit 7
        rsv1 := ch1.toNat.testBit 6
        rsv2 := ch1.toNat.testBit 5
        rsv3 := ch1.toNat.testBit 4
        opcode := Opcode.ofNibble (ch1.toNat % 16)
        mask := ch2.toNat.testBit 7
        payloadLen := ch2.toNat % 128 } := by
  have h16 : (ch1 &&& 0x0f).toNat = ch1.toNat % 16 := by
    rw [UInt8.toNat_and]
    exact Nat.and_two_pow_sub_one_eq_mod ch1.toNat 4
  have h128 : (ch2 &&& 0x7f).toNat = ch2.toNat % 128 := by
    rw [UInt8.toNat_and]
    exact Nat.and_two_pow_sub_one_eq_mod ch2.toNat 7
  simp only [FrameHeader.updateHead2bytes, shift_and_one_ne_zero, h16, h128]
  rfl

/-- The first byte of an encoded header, read back. -/
theorem headByte1_fields (fin : Bool) (op : Opcode) :
    (FrameHeader.headByte1 fin op).toNat.testBit 7 = fin ∧
      (FrameHeader.headByte1 fin op).toNat.testBit 6 = false ∧
      (FrameHeader.headByte1 fin op).toNat.testBit 5 = false ∧
      (FrameHeader.headByte1 fin op).toNat.testBit 4 = false ∧
      Opcode.ofNibble ((FrameHeader.headByte1 fin op).toNat % 16) = op := by
  cases fin <;> cases op <;> decide

/-- The second byte of an encoded header, read back. -/
theorem headByte2_fields (mask : Bool) {n : ℕ} (hn : n < 128) :
    (FrameHeader.headByte2 mask n).toNat.testBit 7 = mask ∧
      (FrameHeader.headByte2 mask n).toNat % 128 = n := by
  have h : ∀ (mask : Bool) (n : Fin 128),
      (FrameHeader.headByte2 mask n.val).toNat.testBit 7 = mask ∧
        (FrameHeader.headByte2 mask n.val).toNat % 128 = n.val := by decide
  exact h mask ⟨n, hn⟩

/-- The extended length announced by an encoded second byte. -/
theorem extLen_headByte2 (mask : Bool) {n : ℕ} (hn : n < 128) :
    extLen (FrameHeader.headByte2 mask n) = if n = 126 then 2 else if n = 127 then 8 else 0 := by
  rw [extLen, (headByte2_fields mask hn).2]

/-- The bytes of a header with the seven-bit length `m` and the extended length `ext`. -/
theorem rfcHead_headBytes {fin mask : Bool} {op : Opcode} {m n : ℕ}
    {ext key rest : List UInt8} (hm : m < 128) (hkey : key.length = 4)
    (hext : ext.length = extLen (FrameHeader.headByte2 mask m))
    (hn : (if extLen (FrameHeader.headByte2 mask m) = 0 then m else beVal ext) = n) :
    rfcHead ([FrameHeader.headByte1 fin op, FrameHeader.headByte2 mask m] ++ ext
        ++ (if mask then key.reverse else []) ++ rest) =
      some (⟨fin, false, false, false, op, mask, n,
        if mask then key.reverse else [0, 0, 0, 0]⟩, rest) := by
  obtain ⟨h7, h6, h5, h4, hop⟩ := headByte1_fields fin op
  obtain ⟨hmask, hlow⟩ := headByte2_fields mask hm
  rw [rfcHead_eq_some_iff]
  refine ⟨FrameHeader.headByte1 fin op, FrameHeader.headByte2 mask m, ext,
    if mask then key.reverse else [], hext, ?_, ?_, ?_⟩
  · rw [keyLen, hmask]
    cases mask <;> simp [hkey]
  · simp
  · rw [headOf, h7, h6, h5, h4, hop, hmask, hlow, hn]
    cases mask <;> rfl

/-- **The encoder writes the format**: the bytes of `make_frame_header` parse back to the
header they were made from, and end where the header does. -/
theorem rfcHead_makeFrameHeader (h : FrameHeader) (rest : List UInt8)
    (hlen : h.payloadLen < 2 ^ 64) (hkey : h.maskingKey.length = 4) :
    rfcHead (h.makeFrameHeader ++ rest) =
      some ({ h with rsv1 := false, rsv2 := false, rsv3 := false,
                     maskingKey := if h.mask then h.maskingKey.reverse else [0, 0, 0, 0] },
        rest) := by
  rw [FrameHeader.makeFrameHeader]
  -- the three forms of the length differ in the second byte and in the extended length
  by_cases hs : h.payloadLen ≤ 125
  · have h0 : extLen (FrameHeader.headByte2 h.mask h.payloadLen) = 0 := by
      rw [extLen_headByte2 h.mask (by omega), if_neg (by omega), if_neg (by omega)]
    simp only [if_pos hs]
    exact @rfcHead_headBytes h.fin h.mask h.opcode h.payloadLen h.payloadLen []
      h.maskingKey rest (by omega) hkey (by rw [h0]; rfl) (by rw [h0, if_pos rfl])
  · by_cases hl : h.payloadLen ≤ 65535
    · have h2 : extLen (FrameHeader.headByte2 h.mask 126) = 2 := by
        rw [extLen_headByte2 h.mask (by omega), if_pos rfl]
      simp only [if_neg hs, if_pos hl]
      exact rfcHead_headBytes (by omega) hkey (by rw [h2, length_beBytes])
        (by rw [h2, if_neg (by omega), beVal_beBytes, Nat.mod_eq_of_lt (by omega)])
    · have h8 : extLen (FrameHeader.headByte2 h.mask 127) = 8 := by
        rw [extLen_headByte2 h.mask (by omega), if_neg (by omega), if_pos rfl]
      simp only [if_neg hs, if_neg hl]
      exact rfcHead_headBytes (by omega) hkey (by rw [h8, length_beBytes])
        (by rw [h8, if_neg (by omega), beVal_beBytes, Nat.mod_eq_of_lt (by omega)])

/-! ### The decoders -/

/-- Bytes stored at the start of a piece of memory. -/
def store (got mem : List UInt8) : List UInt8 := got ++ mem.drop got.length

/-- `count` of both decoders: the bytes of extended length to read. -/
def extCount (payloadLen : ℕ) : ℕ :=
  if payloadLen = 126 then 2 else if 126 < payloadLen then 8 else 0

/-- The end of both decoders: the key by one `recv` into `header_.masking_key`, of which
only the answer `-1` is a failure. -/
def readMaskingKey (h : FrameHeader) (src : Source) : Option (Bool × FrameHeader × Source) :=
  if h.mask then do
    let (ret, got, src') ← src.recv 4
    if ret = -1 then some (false, h, src')
    else some (true, { h with maskingKey := store got h.maskingKey }, src')
  else some (true, h, src)

/-- The middle of the `coin` decoder: the extended length by one `recv` into `buf`. An
answer of two bytes is taken for a two-byte length; any other, whatever was asked for, is
copied over the front of `payload_len`, whose eight bytes are then read in network order. -/
def Coin.readExtLen (buf : List UInt8) (h : FrameHeader) (src : Source) :
    Option (Bool × FrameHeader × Source) :=
  if extCount h.payloadLen = 0 then readMaskingKey h src
  else do
    let (ret, got, src') ← src.recv (extCount h.payloadLen)
    if ret = -1 then some (false, h, src')
    else
      let buf' := store got buf
      if ret = 2 then readMaskingKey { h with payloadLen := beVal (buf'.take 2) } src'
      else
        -- `payload_len` is little-endian in memory
        let mem := store (buf'.take ret.toNat) (beBytes 8 h.payloadLen).reverse
        readMaskingKey { h with payloadLen := beVal mem } src'

/-- `coin::websocket::read_frame_head`: the answer, the header, and the stream left behind.
Each part is read by one `recv`, of which only the answer `-1` is a failure. -/
def Coin.readFrameHead (junk : Vector UInt8 8) (src : Source) :
    Option (Bool × FrameHeader × Source) := do
  let (ret, got, src') ← src.recv 2
  if ret = -1 then some (false, FrameHeader.reset, src')
  else
    let buf := store got junk.toList
    Coin.readExtLen buf (FrameHeader.reset.updateHead2bytes (buf.getD 0 0) (buf.getD 1 0)) src'

/-- The middle of the `robin` decoder: the extended length by `ReadNFromSocketStream`. -/
def Robin.readExtLen (h : FrameHeader) (src : Source) : Option (Bool × FrameHeader × Source) :=
  if extCount h.payloadLen = 0 then readMaskingKey h src
  else do
    let (ret, got, src') ← readNFromSocketStream src (extCount h.payloadLen)
    if ret ≤ 0 then some (false, h, src')
    else if ret = 2 then readMaskingKey { h with payloadLen := beVal (got.take 2) } src'
    else readMaskingKey { h with payloadLen := beVal (got.take 8) } src'

/-- `robin::websocket::read_frame_head`. -/
def Robin.readFrameHead (src : Source) : Option (Bool × FrameHeader × Source) := do
  let (ret, got, src') ← readNFromSocketStream src 2
  if ret ≤ 0 then some (false, FrameHeader.reset, src')
  else
    Robin.readExtLen (FrameHeader.reset.updateHead2bytes (got.getD 0 0) (got.getD 1 0)) src'

/-! ### Headers that arrive whole -/

/-- The reads of these sizes, one after the other, are each answered whole: no segmentation
choice cuts into its request. A part of size zero is not read. -/
def uncut : List ℕ → List ℕ → Bool
  | [], _ => true
  | n :: ns, cuts =>
      if n = 0 then uncut ns cuts
      else decide (n ≤ cuts.headD n + 1) && uncut ns cuts.tail

/-- The sizes of a header's parts: the first two bytes, the extended length and the key as
far as the second byte announces them. -/
def headParts (bytes : List UInt8) : List ℕ :=
  [2, extLen (bytes.getD 1 0), keyLen (bytes.getD 1 0)]

/-- The stream begins with a complete header, and each of its parts arrives whole. -/
def HeadDelivered (src : Source) : Prop :=
  (rfcHead src.bytes).isSome ∧ uncut (headParts src.bytes) src.cuts = true

/-- A part that arrives whole: the `recv` for it, and the choices left for the next. -/
theorem recv_part {src : Source} {part rest : List UInt8} {ns : List ℕ}
    (hne : part.length ≠ 0) (hb : src.bytes = part ++ rest)
    (hcut : uncut (part.length :: ns) src.cuts = true) :
    src.recv part.length =
        some ((part.length : ℤ), part, { src with bytes := rest, cuts := src.cuts.tail }) ∧
      uncut ns src.cuts.tail = true := by
  rw [uncut, if_neg hne, Bool.and_eq_true, decide_eq_true_eq] at hcut
  have hlen : part.length ≤ src.bytes.length := by
    rw [hb, List.length_append]
    omega
  refine ⟨?_, hcut.2⟩
  rw [Source.recv_whole hne hlen hcut.1, hb, List.take_left', List.drop_left']
  · rfl
  · rfl

/-- Both decoders ask for the extended length that the second byte announces. -/
theorem extCount_mod (b1 : UInt8) : extCount (b1.toNat % 128) = extLen b1 := by
  rw [extCount, extLen]
  have : b1.toNat % 128 < 128 := Nat.mod_lt _ (by decide)
  by_cases h6 : b1.toNat % 128 = 126
  · rw [if_pos h6, if_pos h6]
  · by_cases h7 : b1.toNat % 128 = 127
    · rw [if_neg h6, if_neg h6, if_pos h7, if_pos (by omega)]
    · rw [if_neg h6, if_neg h6, if_neg h7, if_neg (by omega)]

theorem extLen_cases (b1 : UInt8) : extLen b1 = 0 ∨ extLen b1 = 2 ∨ extLen b1 = 8 := by
  rw [extLen]
  split_ifs <;> simp

/-- The seven-bit length that `update_head_2bytes` leaves in the header. -/
theorem payloadLen_update (b0 b1 : UInt8) :
    (FrameHeader.reset.updateHead2bytes b0 b1).payloadLen = b1.toNat % 128 := by
  rw [updateHead2bytes_eq]

/-- The key, when it arrives whole, completes the header. -/
theorem readMaskingKey_whole (b0 b1 : UInt8) (ext : List UInt8) {key rest : List UInt8}
    {src : Source} (hkey : key.length = keyLen b1) (hb : src.bytes = key ++ rest)
    (hcut : uncut [key.length] src.cuts = true) :
    ∃ cuts, cuts <:+ src.cuts ∧
      readMaskingKey { FrameHeader.reset.updateHead2bytes b0 b1 with
          payloadLen := if extLen b1 = 0 then b1.toNat % 128 else beVal ext } src =
        some (true, headOf b0 b1 ext key, { src with bytes := rest, cuts := cuts }) := by
  rw [keyLen] at hkey
  rw [updateHead2bytes_eq, readMaskingKey]
  cases hm : b1.toNat.testBit 7 with
  | false =>
      obtain rfl : key = [] := List.length_eq_zero_iff.mp (by rw [hkey, hm]; rfl)
      refine ⟨src.cuts, List.suffix_rfl, ?_⟩
      rw [List.nil_append] at hb
      rw [if_neg Bool.false_ne_true, headOf, hm, if_neg Bool.false_ne_true, ← hb]
      rfl
  | true =>
      rw [hm, if_pos rfl] at hkey
      obtain ⟨hrecv, -⟩ := recv_part (by omega) hb hcut
      rw [hkey] at hrecv
      refine ⟨src.cuts.tail, List.tail_suffix _, ?_⟩
      have hstore : store key FrameHeader.reset.maskingKey = key := by
        rw [store, List.drop_eq_nil_of_le (by rw [hkey]; decide), List.append_nil]
      have hnot : ¬ ((4 : ℕ) : ℤ) = -1 := by decide
      simp only [if_true, hrecv, Option.bind_eq_bind, Option.bind_some, hstore, if_neg hnot]
      rw [headOf, hm, if_pos rfl]

/-- The `coin` extended length and key, when they arrive whole. -/
theorem Coin.readExtLen_whole (b0 : UInt8) {b1 : UInt8} (buf : List UInt8) {src : Source}
    {ext key rest : List UInt8} (hext : ext.length = extLen b1) (hkey : key.length = keyLen b1)
    (hb : src.bytes = ext ++ (key ++ rest))
    (hcut : uncut [ext.length, key.length] src.cuts = true) :
    ∃ cuts, cuts <:+ src.cuts ∧
      Coin.readExtLen buf (FrameHeader.reset.updateHead2bytes b0 b1) src =
        some (true, headOf b0 b1 ext key, { src with bytes := rest, cuts := cuts }) := by
  rw [Coin.readExtLen, payloadLen_update, extCount_mod]
  by_cases h0 : extLen b1 = 0
  · obtain rfl : ext = [] := List.length_eq_zero_iff.mp (by omega)
    obtain ⟨cuts, hsuf, hread⟩ := readMaskingKey_whole b0 b1 [] hkey hb hcut
    refine ⟨cuts, hsuf, ?_⟩
    rw [if_pos h0, ← hread, if_pos h0, ← payloadLen_update b0 b1]
  · obtain ⟨hrecv, hcut'⟩ := recv_part (by omega) hb hcut
    rw [hext] at hrecv
    obtain ⟨cuts, hsuf, hread⟩ := readMaskingKey_whole b0 b1 ext hkey
      (rfl : Source.bytes { src with bytes := key ++ rest, cuts := src.cuts.tail } = _) hcut'
    rw [if_neg h0] at hread
    refine ⟨cuts, hsuf.trans (List.tail_suffix _), ?_⟩
    have hnot : ¬ ((extLen b1 : ℕ) : ℤ) = -1 := by omega
    have htake : (store ext buf).take (extLen b1) = ext := by
      rw [store, List.take_left' hext]
    simp only [if_neg h0, hrecv, Option.bind_eq_bind, Option.bind_some, if_neg hnot,
      Int.toNat_natCast, htake]
    rcases extLen_cases b1 with h | h | h
    · exact absurd h h0
    · rw [h] at htake ⊢
      rw [if_pos (by decide), htake]
      exact hread
    · have hmem : store ext (beBytes 8 (b1.toNat % 128)).reverse = ext := by
        rw [store, List.drop_eq_nil_of_le (by simp; omega), List.append_nil]
      rw [h, if_neg (by decide), hmem]
      exact hread

/-- The two first bytes of a stream that begins with a complete header. -/
theorem rfcHead_first {bytes rest : List UInt8} {h : FrameHeader}
    (hd : rfcHead bytes = some (h, rest)) :
    ∃ b0 b1 ext key, ext.length = extLen b1 ∧ key.length = keyLen b1 ∧
      bytes = [b0, b1] ++ (ext ++ (key ++ rest)) ∧ h = headOf b0 b1 ext key ∧
      headParts bytes = [2, ext.length, key.length] := by
  obtain ⟨b0, b1, ext, key, hext, hkey, rfl, rfl⟩ := rfcHead_eq_some_iff.mp hd
  exact ⟨b0, b1, ext, key, hext, hkey, rfl, rfl, by rw [hext, hkey]; rfl⟩

/-- **A header that arrives whole** is decoded by `coin` as the format says, whatever the
uninitialised bytes of its array are. -/
theorem Coin.readFrameHead_eq (junk : Vector UInt8 8) {src : Source} {h : FrameHeader}
    {rest : List UInt8} (hd : rfcHead src.bytes = some (h, rest))
    (hcut : uncut (headParts src.bytes) src.cuts = true) :
    ∃ cuts, cuts <:+ src.cuts ∧ Coin.readFrameHead junk src =
      some (true, h, { src with bytes := rest, cuts := cuts }) := by
  obtain ⟨b0, b1, ext, key, hext, hkey, hb, rfl, hparts⟩ := rfcHead_first hd
  rw [hparts] at hcut
  obtain ⟨hrecv, hcut'⟩ := @recv_part src [b0, b1] _ _ (by simp) hb hcut
  obtain ⟨cuts, hsuf, hread⟩ := Coin.readExtLen_whole b0 (store [b0, b1] junk.toList)
    hext hkey
    (rfl : Source.bytes { src with bytes := ext ++ (key ++ rest), cuts := src.cuts.tail } = _)
    hcut'
  refine ⟨cuts, hsuf.trans (List.tail_suffix _), ?_⟩
  rw [Coin.readFrameHead]
  change (src.recv 2).bind _ = _
  rw [show src.recv 2 = _ from hrecv, Option.bind_some]
  exact hread

/-- A part read by `ReadNFromSocketStream`, and the choices left for the next when it
arrives whole. -/
theorem readN_part {src : Source} {part rest : List UInt8} (hne : part.length ≠ 0)
    (hb : src.bytes = part ++ rest) :
    ∃ cuts, cuts <:+ src.cuts ∧
      (∀ ns, uncut (part.length :: ns) src.cuts = true → uncut ns cuts = true) ∧
      readNFromSocketStream src part.length =
        some ((part.length : ℤ), part, { src with bytes := rest, cuts := cuts }) := by
  have hlen : part.length ≤ src.bytes.length := by
    rw [hb, List.length_append]
    omega
  have htake : src.bytes.take part.length = part := by rw [hb, List.take_left']; rfl
  have hdrop : src.bytes.drop part.length = rest := by rw [hb, List.drop_left']; rfl
  by_cases hcut : part.length ≤ src.cuts.headD part.length + 1
  · have hread := readNFromSocketStream_whole (by omega) hlen hcut
    rw [htake, hdrop] at hread
    refine ⟨src.cuts.tail, List.tail_suffix _, fun ns hns => ?_, hread⟩
    rw [uncut, if_neg hne, Bool.and_eq_true] at hns
    exact hns.2
  · obtain ⟨cuts, hread⟩ := readNFromSocketStream_eq (by omega) hlen
    rw [htake, hdrop] at hread
    refine ⟨cuts, readNFromSocketStream_cuts hread, fun ns hns => ?_, hread⟩
    rw [uncut, if_neg hne, Bool.and_eq_true, decide_eq_true_eq] at hns
    exact absurd hns.1 hcut

/-- `robin` reads the first two bytes and the extended length under any segmentation; what
is left is the key. -/
theorem Robin.readFrameHead_upto {src : Source} {h : FrameHeader} {rest : List UInt8}
    (hd : rfcHead src.bytes = some (h, rest)) :
    ∃ b0 b1 ext key cuts, key.length = keyLen b1 ∧ h = headOf b0 b1 ext key ∧
      cuts <:+ src.cuts ∧
      (uncut (headParts src.bytes) src.cuts = true → uncut [key.length] cuts = true) ∧
      Robin.readFrameHead src =
        readMaskingKey { FrameHeader.reset.updateHead2bytes b0 b1 with
            payloadLen := if extLen b1 = 0 then b1.toNat % 128 else beVal ext }
          { src with bytes := key ++ rest, cuts := cuts } := by
  obtain ⟨b0, b1, ext, key, hext, hkey, hb, rfl, hparts⟩ := rfcHead_first hd
  obtain ⟨cuts, hsuf, hnext, hread⟩ := @readN_part src [b0, b1] _ (by simp) hb
  rw [hparts]
  have hhead : Robin.readFrameHead src =
      Robin.readExtLen (FrameHeader.reset.updateHead2bytes b0 b1)
        { src with bytes := ext ++ (key ++ rest), cuts := cuts } := by
    rw [Robin.readFrameHead]
    change (readNFromSocketStream src 2).bind _ = _
    rw [show readNFromSocketStream src 2 = _ from hread]
    rfl
  rw [hhead, Robin.readExtLen, payloadLen_update, extCount_mod]
  by_cases h0 : extLen b1 = 0
  · obtain rfl : ext = [] := List.length_eq_zero_iff.mp (by omega)
    refine ⟨b0, b1, [], key, cuts, hkey, rfl, hsuf, hnext _, ?_⟩
    rw [if_pos h0, if_pos h0, ← payloadLen_update b0 b1]
    rfl
  · obtain ⟨cuts', hsuf', hnext', hread'⟩ := readN_part (by omega)
      (rfl : Source.bytes { src with bytes := ext ++ (key ++ rest), cuts := cuts } = _)
    refine ⟨b0, b1, ext, key, cuts', hkey, rfl, hsuf'.trans hsuf,
      fun hcut => hnext' _ (hnext _ hcut), ?_⟩
    rw [hext] at hread'
    have hnot' : ¬ ((extLen b1 : ℤ) ≤ 0) := by omega
    simp only [if_neg h0, hread', Option.bind_eq_bind, Option.bind_some, if_neg hnot']
    rcases extLen_cases b1 with h | h | h
    · exact absurd h h0
    · rw [h, if_pos (by decide), List.take_of_length_le (by omega)]
    · rw [h, if_neg (by decide), List.take_of_length_le (by omega)]

/-- **A header that arrives whole** is decoded by `robin` as the format says. -/
theorem Robin.readFrameHead_eq {src : Source} {h : FrameHeader} {rest : List UInt8}
    (hd : rfcHead src.bytes = some (h, rest))
    (hcut : uncut (headParts src.bytes) src.cuts = true) :
    ∃ cuts, cuts <:+ src.cuts ∧ Robin.readFrameHead src =
      some (true, h, { src with bytes := rest, cuts := cuts }) := by
  obtain ⟨b0, b1, ext, key, cuts, hkey, rfl, hsuf, hnext, hread⟩ := Robin.readFrameHead_upto hd
  obtain ⟨cuts', hsuf', hkeyread⟩ := readMaskingKey_whole b0 b1 ext hkey
    (rfl : Source.bytes { src with bytes := key ++ rest, cuts := cuts } = key ++ rest)
    (hnext hcut)
  exact ⟨cuts', hsuf'.trans hsuf, by rw [hread, hkeyread]⟩

/-- **An unmasked header** is decoded by `robin` as the format says, under every
segmentation. -/
theorem Robin.readFrameHead_unmasked {src : Source} {h : FrameHeader} {rest : List UInt8}
    (hd : rfcHead src.bytes = some (h, rest)) (hmask : h.mask = false) :
    ∃ cuts, cuts <:+ src.cuts ∧ Robin.readFrameHead src =
      some (true, h, { src with bytes := rest, cuts := cuts }) := by
  obtain ⟨b0, b1, ext, key, cuts, hkey, rfl, hsuf, -, hread⟩ := Robin.readFrameHead_upto hd
  obtain rfl : key = [] := by
    rw [keyLen, show b1.toNat.testBit 7 = false from hmask] at hkey
    exact List.length_eq_zero_iff.mp hkey
  obtain ⟨cuts', hsuf', hkeyread⟩ := readMaskingKey_whole b0 b1 ext hkey
    (rfl : Source.bytes { src with bytes := [] ++ rest, cuts := cuts } = [] ++ rest) rfl
  exact ⟨cuts', hsuf'.trans hsuf, by rw [hread, hkeyread]⟩

/-- The **beginning of an unmasked header** is never taken for one by `robin`: what arrives
is a part of a header with `more` still missing, and the call waits or answers `false`. -/
theorem Robin.readFrameHead_short {src : Source} {h : FrameHeader} {more : List UInt8}
    (hne : more ≠ []) (hd : rfcHead (src.bytes ++ more) = some (h, []))
    (hmask : h.mask = false) {ok : Bool} {h' : FrameHeader} {src' : Source}
    (hread : Robin.readFrameHead src = some (ok, h', src')) : ok = false := by
  obtain ⟨b0, b1, ext, key, hext, hkey, hb, rfl, -⟩ := rfcHead_first hd
  have hkey0 : key.length = 0 := by
    rw [hkey, keyLen, show b1.toNat.testBit 7 = false from hmask]
    rfl
  have hmore : 0 < more.length := List.length_pos_iff.mpr hne
  have hlen := congrArg List.length hb
  simp only [List.length_append, List.length_cons, List.length_nil] at hlen
  rw [Robin.readFrameHead] at hread
  simp only [Option.bind_eq_bind, Option.bind_eq_some_iff] at hread
  obtain ⟨⟨ret, got, src₁⟩, hfirst, hread⟩ := hread
  by_cases hshort : src.bytes.length < 2
  · obtain ⟨e, cuts, -, hres⟩ := readNFromSocketStream_short hshort hfirst
    obtain ⟨rfl, rfl, rfl⟩ : ret = e.answer ∧ got = src.bytes ∧
        src₁ = { src with bytes := [], cuts := cuts } := by simpa using hres
    rw [if_pos e.answer_le, Option.some.injEq, Prod.mk.injEq] at hread
    exact hread.1.symm
  · -- the two bytes are there, and the extended length is not
    obtain ⟨cuts, hfirst'⟩ := readNFromSocketStream_eq (by decide : 0 < 2)
      (by omega : 2 ≤ src.bytes.length)
    rw [hfirst', Option.some.injEq] at hfirst
    obtain ⟨rfl, rfl, rfl⟩ : ret = 2 ∧ got = src.bytes.take 2 ∧
        src₁ = { src with bytes := src.bytes.drop 2, cuts := cuts } := by simpa using hfirst.symm
    have hb1 : (src.bytes.take 2).getD 1 0 = b1 := by
      have := congrArg (fun l => (l.take 2).getD 1 0) hb
      simp only [List.take_append_of_le_length (by omega : 2 ≤ src.bytes.length)] at this
      exact this
    have hext0 : extLen b1 ≠ 0 := by omega
    have hnot : ¬ (2 : ℤ) ≤ 0 := by decide
    rw [if_neg hnot, hb1, Robin.readExtLen, payloadLen_update, extCount_mod,
      if_neg hext0] at hread
    simp only [Option.bind_eq_bind, Option.bind_eq_some_iff] at hread
    obtain ⟨⟨ret', got', src₂⟩, hsecond, hread⟩ := hread
    obtain ⟨e, cuts', -, hres⟩ := readNFromSocketStream_short
      (by simp only [List.length_drop]; omega) hsecond
    obtain ⟨rfl, -⟩ : ret' = e.answer ∧ _ := by simpa using hres
    rw [if_pos e.answer_le, Option.some.injEq, Prod.mk.injEq] at hread
    exact hread.1.symm

/-! ### When the decoders are right -/

/-- The answer of a decoder is **right for the stream** it read: `true` exactly when a
complete header was there, and then that header, with the stream left right behind it. -/
def Decodes (src : Source) (res : Option (Bool × FrameHeader × Source)) : Prop :=
  ∃ ok h src', res = some (ok, h, src') ∧
    (ok = true ↔ (rfcHead src.bytes).isSome) ∧
    ∀ h₀ rest, rfcHead src.bytes = some (h₀, rest) → h = h₀ ∧ src'.bytes = rest

/-- One `recv` at the end of a stream takes at most what was asked for; when it was to be
the first of several parts and one of these does not arrive whole, it takes less or leaves
a choice that cuts into a later part. -/
theorem recv_eof_part {src : Source} (heof : src.ending = some .eof) {n : ℕ} (hn : n ≠ 0)
    (ns : List ℕ) :
    ∃ k cuts, k ≤ n ∧ src.recv n = some ((k : ℤ), src.bytes.take k,
        { src with bytes := src.bytes.drop k, cuts := cuts }) ∧
      (n ≤ src.bytes.length → uncut (n :: ns) src.cuts = false →
        k < n ∨ uncut ns cuts = false) := by
  by_cases hlen : n ≤ src.bytes.length
  · by_cases hcut : n ≤ src.cuts.headD n + 1
    · refine ⟨n, src.cuts.tail, le_refl n, Source.recv_whole hn hlen hcut, fun _ h => .inr ?_⟩
      rw [uncut, if_neg hn, decide_eq_true hcut, Bool.true_and] at h
      exact h
    · obtain ⟨k, -, hk, hrecv⟩ := Source.recv_cut hlen hcut
      exact ⟨k, src.cuts.tail, by omega, hrecv, fun _ _ => .inl hk⟩
  · obtain ⟨k, cuts, hk, hrecv⟩ := Source.recv_eof heof n
    exact ⟨k, cuts, hk, hrecv, fun h => absurd h hlen⟩

/-- At the end of a stream the key is never refused, and at most four bytes are taken. -/
theorem readMaskingKey_eof (h : FrameHeader) {src : Source} (heof : src.ending = some .eof) :
    ∃ h' src', readMaskingKey h src = some (true, h', src') ∧ h'.mask = h.mask ∧
      ∀ key, key = (if h.mask then 4 else 0) → key ≤ src.bytes.length →
        src.bytes.length ≤ src'.bytes.length + key ∧
        (uncut [key] src.cuts = false → src.bytes.length < src'.bytes.length + key) := by
  rw [readMaskingKey]
  cases hm : h.mask with
  | false =>
      refine ⟨h, src, rfl, hm, ?_⟩
      rintro key rfl -
      exact ⟨by omega, by simp [uncut]⟩
  | true =>
      obtain ⟨k, cuts, hk, hrecv, hless⟩ := recv_eof_part heof (by decide : 4 ≠ 0) []
      have hnot : ¬ ((k : ℕ) : ℤ) = -1 := by omega
      refine ⟨{ h with maskingKey := store (src.bytes.take k) h.maskingKey },
        { src with bytes := src.bytes.drop k, cuts := cuts }, ?_, hm, ?_⟩
      · simp only [if_true, hrecv, Option.bind_eq_bind, Option.bind_some, if_neg hnot, hm]
      · rintro key rfl hlen
        simp only [if_true, List.length_drop] at hlen ⊢
        refine ⟨by omega, fun hcut => ?_⟩
        rcases hless hlen hcut with h | h
        · omega
        · simp [uncut] at h

/-- At the end of a stream `coin` refuses neither the extended length nor the key, and does
not take all their bytes when one of them does not arrive whole. -/
theorem Coin.readExtLen_eof (buf : List UInt8) (h : FrameHeader) {src : Source}
    (heof : src.ending = some .eof) :
    ∃ h' src', Coin.readExtLen buf h src = some (true, h', src') ∧ h'.mask = h.mask ∧
      ∀ ext key, ext = extCount h.payloadLen → key = (if h.mask then 4 else 0) →
        ext + key ≤ src.bytes.length → uncut [ext, key] src.cuts = false →
        src.bytes.length < src'.bytes.length + (ext + key) := by
  rw [Coin.readExtLen]
  by_cases h0 : extCount h.payloadLen = 0
  · obtain ⟨h', src', hread, hmask, htake⟩ := readMaskingKey_eof h heof
    refine ⟨h', src', by rw [if_pos h0, hread], hmask, ?_⟩
    rintro ext key rfl hkey hlen hcut
    rw [h0] at hlen hcut ⊢
    have := (htake key hkey (by omega)).2 hcut
    omega
  · obtain ⟨k, cuts, hk, hrecv, hless⟩ := recv_eof_part heof h0 [if h.mask then 4 else 0]
    have hnot : ¬ ((k : ℕ) : ℤ) = -1 := by omega
    -- the value taken for the length does not matter here
    have hlater : ∀ p, ∃ h' src', readMaskingKey { h with payloadLen := p }
          { src with bytes := src.bytes.drop k, cuts := cuts } = some (true, h', src') ∧
        h'.mask = h.mask ∧
        ∀ ext key, ext = extCount h.payloadLen → key = (if h.mask then 4 else 0) →
          ext + key ≤ src.bytes.length → uncut [ext, key] src.cuts = false →
          src.bytes.length < src'.bytes.length + (ext + key) := by
      intro p
      obtain ⟨h', src', hread, hmask, htake⟩ := @readMaskingKey_eof { h with payloadLen := p }
        { src with bytes := src.bytes.drop k, cuts := cuts } heof
      refine ⟨h', src', hread, hmask, ?_⟩
      rintro ext key rfl rfl hlen hcut
      simp only [List.length_drop] at htake
      obtain ⟨hle, hlt⟩ := htake _ rfl (by omega)
      rcases hless (by omega) hcut with h | h
      · omega
      · have := hlt h
        omega
    simp only [if_neg h0, hrecv, Option.bind_eq_bind, Option.bind_some, if_neg hnot]
    by_cases h2 : (k : ℤ) = 2
    · simp only [if_pos h2]
      exact hlater _
    · simp only [if_neg h2]
      exact hlater _

/-- At the end of a stream `coin` never answers `false`. The mask bit is that of the second
byte of its array, whether or not it was read; and once the first two bytes are read, it
does not take the whole header when a later part does not arrive whole. -/
theorem Coin.readFrameHead_eof (junk : Vector UInt8 8) {src : Source}
    (heof : src.ending = some .eof) {k : ℕ} {cuts : List ℕ}
    (hrecv : src.recv 2 = some ((k : ℤ), src.bytes.take k,
      { src with bytes := src.bytes.drop k, cuts := cuts })) :
    ∃ h' src', Coin.readFrameHead junk src = some (true, h', src') ∧
      h'.mask = ((store (src.bytes.take k) junk.toList).getD 1 0).toNat.testBit 7 ∧
      ∀ b1, b1 = (store (src.bytes.take k) junk.toList).getD 1 0 →
        extLen b1 + keyLen b1 ≤ (src.bytes.drop k).length →
        uncut [extLen b1, keyLen b1] cuts = false →
        (src.bytes.drop k).length < src'.bytes.length + (extLen b1 + keyLen b1) := by
  have hnot : ¬ ((k : ℕ) : ℤ) = -1 := by omega
  simp only [Coin.readFrameHead, hrecv, Option.bind_eq_bind, Option.bind_some, if_neg hnot]
  generalize hbuf : store (src.bytes.take k) junk.toList = buf
  obtain ⟨h', src', hread, hmask, hless⟩ := @Coin.readExtLen_eof buf
    (FrameHeader.reset.updateHead2bytes (buf.getD 0 0) (buf.getD 1 0))
    { src with bytes := src.bytes.drop k, cuts := cuts } heof
  have hbit : (FrameHeader.reset.updateHead2bytes (buf.getD 0 0) (buf.getD 1 0)).mask
      = (buf.getD 1 0).toNat.testBit 7 := by rw [updateHead2bytes_eq]
  refine ⟨h', src', hread, hmask.trans hbit, ?_⟩
  rintro b1 rfl hlen hcut
  rw [payloadLen_update, extCount_mod, hbit] at hless
  exact hless _ _ rfl rfl hlen hcut

/-- When the first two bytes do not arrive together, `coin` takes the mask bit from its
uninitialised array. -/
theorem Coin.readFrameHead_junk (bytes : List UInt8) {k : ℕ} (hk : k < 2) (c : UInt8) :
    (store (bytes.take k) (Vector.replicate 8 c).toList).getD 1 0 = c := by
  obtain rfl | rfl : k = 0 ∨ k = 1 := by omega
  · rw [List.take_zero]
    rfl
  · rcases bytes with - | ⟨b0, tail⟩
    · rfl
    · rfl

/-- What `coin` decodes is a complete header, and it has arrived in whole parts: otherwise
some content of the array is taken for a part of it, or the stream is left inside it. -/
theorem Coin.headDelivered_of_decodes {src : Source} (heof : src.ending = some .eof)
    (hcoin : ∀ junk, Decodes src (Coin.readFrameHead junk src)) : HeadDelivered src := by
  obtain ⟨k, cuts, hk, hrecv, hless⟩ := recv_eof_part heof (by decide : 2 ≠ 0)
    [extLen (src.bytes.getD 1 0), keyLen (src.bytes.getD 1 0)]
  -- `coin` answers `true`, so a complete header must be there
  have hsome : (rfcHead src.bytes).isSome = true := by
    obtain ⟨ok, h, src', hread, hok, -⟩ := hcoin (Vector.replicate 8 0)
    obtain ⟨h', src'', hread', -⟩ :=
      Coin.readFrameHead_eof (Vector.replicate 8 0) heof hrecv
    rw [hread', Option.some.injEq, Prod.mk.injEq] at hread
    exact hok.mp hread.1.symm
  refine ⟨hsome, ?_⟩
  by_contra hcut
  rw [Bool.not_eq_true] at hcut
  obtain ⟨⟨h₀, rest⟩, hd⟩ := Option.isSome_iff_exists.mp hsome
  obtain ⟨b0, b1, ext, key, hext, hkey, hb, rfl, -⟩ := rfcHead_first hd
  have hb1 : src.bytes.getD 1 0 = b1 := by rw [hb]; rfl
  have hlen : src.bytes.length = 2 + (extLen b1 + keyLen b1) + rest.length := by
    rw [hb]
    simp only [List.length_append, List.length_cons, List.length_nil]
    omega
  rw [headParts] at hcut
  rw [hb1] at hcut hless
  have hright : ∀ junk h' src', Coin.readFrameHead junk src = some (true, h', src') →
      h' = headOf b0 b1 ext key ∧ src'.bytes = rest := by
    intro junk h' src' hread
    obtain ⟨ok, h, src'', hread', -, hfields⟩ := hcoin junk
    rw [hread, Option.some.injEq, Prod.mk.injEq, Prod.mk.injEq] at hread'
    obtain ⟨-, rfl, rfl⟩ := hread'
    exact hfields _ _ hd
  by_cases hk2 : k < 2
  · -- the second byte comes from the array: choose it with the other mask bit
    have hflip : ∀ b : Bool, ∃ c : UInt8, c.toNat.testBit 7 = !b := by
      rintro (_ | _)
      · exact ⟨0x80, rfl⟩
      · exact ⟨0, rfl⟩
    obtain ⟨c, hc⟩ := hflip (b1.toNat.testBit 7)
    obtain ⟨h', src', hread, hmask, -⟩ :=
      Coin.readFrameHead_eof (Vector.replicate 8 c) heof hrecv
    rw [Coin.readFrameHead_junk _ hk2, hc, (hright _ _ _ hread).1] at hmask
    exact absurd hmask (by simp [headOf])
  · -- the second byte is read: the stream is not left behind the header
    obtain rfl : k = 2 := by omega
    have hlater : uncut [extLen b1, keyLen b1] cuts = false :=
      (hless (by omega) hcut).resolve_left (by omega)
    obtain ⟨h', src', hread, -, hshort⟩ :=
      Coin.readFrameHead_eof (Vector.replicate 8 0) heof hrecv
    have hsecond : b1 = (store (src.bytes.take 2) (Vector.replicate 8 0).toList).getD 1 0 := by
      rw [hb]
      rfl
    have := hshort b1 hsecond (by rw [List.length_drop]; omega) hlater
    rw [(hright _ _ _ hread).2, List.length_drop] at this
    omega

/-- A complete header that arrives in whole parts is decoded by both. -/
theorem decodes_of_headDelivered {src : Source} (h : HeadDelivered src) :
    (∀ junk, Decodes src (Coin.readFrameHead junk src)) ∧
      Decodes src (Robin.readFrameHead src) := by
  obtain ⟨hsome, hcut⟩ := h
  obtain ⟨⟨h, rest⟩, hd⟩ := Option.isSome_iff_exists.mp hsome
  have hright : ∀ {res cuts},
      res = some (true, h, { src with bytes := rest, cuts := cuts }) → Decodes src res := by
    rintro res cuts rfl
    refine ⟨true, h, _, rfl, by simp [hsome], ?_⟩
    rintro h₀ rest₀ hd₀
    rw [hd, Option.some.injEq, Prod.mk.injEq] at hd₀
    exact hd₀
  constructor
  · intro junk
    obtain ⟨cuts, -, hread⟩ := Coin.readFrameHead_eq junk hd hcut
    exact hright hread
  · obtain ⟨cuts, -, hread⟩ := Robin.readFrameHead_eq hd hcut
    exact hright hread

/-- **Exactly when the decoders are right**: on a stream that ends with the peer's close,
both decoders answer as the format says if and only if the stream begins with a complete
header each of whose parts arrives whole. -/
theorem readFrameHead_decodes_iff (src : Source) (heof : src.ending = some .eof) :
    ((∀ junk, Decodes src (Coin.readFrameHead junk src)) ∧
        Decodes src (Robin.readFrameHead src)) ↔
      (rfcHead src.bytes).isSome = true ∧ uncut (headParts src.bytes) src.cuts = true := by
  constructor
  · rintro ⟨hcoin, -⟩
    exact Coin.headDelivered_of_decodes heof hcoin
  · intro h
    exact decodes_of_headDelivered h

/-- A masked text frame's header in three whole parts is decoded by both. -/
theorem readFrameHead_decodes_masked :
    let src : Source :=
      { bytes := [0x81, 0xfe, 0x01, 0x00, 1, 2, 3, 4, 9], ending := some .eof }
    (∀ junk, Decodes src (Coin.readFrameHead junk src)) ∧
      Decodes src (Robin.readFrameHead src) :=
  (readFrameHead_decodes_iff _ rfl).mpr ⟨by decide, by decide⟩

/-- On an empty stream, at its end, there is no header; `coin` answers `true`. -/
theorem readFrameHead_at_end :
    ¬ ∀ src : Source, src.ending = some .eof →
      (∀ junk, Decodes src (Coin.readFrameHead junk src)) ∧
        Decodes src (Robin.readFrameHead src) := by
  intro h
  obtain ⟨ok, h', src', hread, hok, -⟩ :=
    (h { bytes := [], ending := some .eof } rfl).1 (Vector.replicate 8 0)
  have hcoin : Coin.readFrameHead (Vector.replicate 8 0) { bytes := [], ending := some .eof } =
      some (true, FrameHeader.reset.updateHead2bytes 0 0,
        { bytes := [], ending := some .eof }) := by decide
  rw [hcoin, Option.some.injEq, Prod.mk.injEq] at hread
  exact absurd (hok.mp hread.1.symm) (by decide)

end ArchNet

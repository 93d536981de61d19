import ArchNet.Bytes
import ArchNet.SocketStream

/-!
# The RPC Codec

`PBCodec` of `pbrpc_codec.h`: the metas that precede a request and a response on the wire,
the choice between a plain and a compressed body, and the buffers of a streaming
connection. Protobuf and the compression libraries are not part of the repository; what the
codec calls of them is the structure `Libraries`, a parameter of everything here, and what
is relied upon is `Libraries.Documented`.

## Conventions

A string is its bytes. A buffer is its unread bytes; of the compression buffers the number
of writable bytes matters as well, since the wrappers of `compression.h` are given it as the
size of their output, and `snappy_decompress` returns it. A failed `assert` ends the
process: `Outcome.aborts`. Sizes are written with the width of their field, so a name or a
text of more than 255 bytes is announced by the low byte of its length.

## Main results

* `decodeRequestMeta_encode`: the meta of a request decodes to its fields, when its names
  are no longer than 255 bytes.
* `decodeResponseMeta_encode`, `errorFields_eq`: the same for the metas of a response.
* `decodeData_eq`: a body that was compressed comes back, when its size is one that the
  decoder accepts.
-/

namespace ArchNet

open Bytes

/-! ### Calls that may block or end the process -/

/-- What a call comes to: it waits for bytes, an assertion fails in it, or it returns. -/
inductive Outcome (α : Type)
  | blocks
  | aborts
  | returns (a : α)
  deriving Repr, DecidableEq

namespace Outcome

variable {α β : Type}

/-- One call after the other. -/
def bind : Outcome α → (α → Outcome β) → Outcome β
  | blocks, _ => blocks
  | aborts, _ => aborts
  | returns a, f => f a

instance : Monad Outcome where
  pure := returns
  bind := bind

/-- A read that may block. -/
def ofRead : Option α → Outcome α
  | none => blocks
  | some a => returns a

@[simp] theorem bind_returns (a : α) (f : α → Outcome β) : (returns a >>= f) = f a := rfl

@[simp] theorem ofRead_some (a : α) : ofRead (some a) = returns a := rfl

/-- A read that returns has found what it returns. -/
theorem ofRead_eq_returns {x : Option α} {a : α} : ofRead x = returns a ↔ x = some a := by
  cases x with
  | none => exact ⟨nofun, nofun⟩
  | some b => simp [ofRead]

/-- A call that reads, where the read does not block. -/
theorem ofRead_bind {x : Option α} {a : α} (h : x = some a) (f : α → Outcome β) :
    (ofRead x >>= f) = f a := by
  rw [h, ofRead_some, bind_returns]

/-- A chain of calls that returns has a first call that returns. -/
theorem bind_eq_returns {x : Outcome α} {f : α → Outcome β} {b : β} :
    (x >>= f) = returns b ↔ ∃ a, x = returns a ∧ f a = returns b := by
  cases x with
  | blocks => exact ⟨nofun, nofun⟩
  | aborts => exact ⟨nofun, nofun⟩
  | returns a =>
      constructor
      · exact fun h => ⟨a, rfl, h⟩
      · rintro ⟨a', ha, h⟩
        obtain rfl := Outcome.returns.inj ha
        exact h

end Outcome

/-! ### Compression -/

/-- `enum CompressType`. -/
inductive CompressType
  | noCompression
  | lz4
  | lz4Fast
  | snappy
  | zstd
  | zstdHigh
  deriving Repr, DecidableEq

namespace CompressType

/-- The value of a compression type. -/
def toByte : CompressType → UInt8
  | noCompression => 1
  | lz4 => 2
  | lz4Fast => 4
  | snappy => 8
  | zstd => 16
  | zstdHigh => 32

/-- The entry of `compression_funcs`: `none` for a null one. -/
def compressor (b : UInt8) : Option CompressType :=
  if b = 2 then some lz4
  else if b = 4 then some lz4Fast
  else if b = 8 then some snappy
  else if b = 16 then some zstd
  else if b = 32 then some zstdHigh
  else none

@[simp] theorem toByte_eq_iff {t : CompressType} :
    t.toByte = noCompression.toByte ↔ t = noCompression := by
  cases t <;> decide

end CompressType

/-- What the codec calls of protobuf and of the compression libraries, for messages `M` of
the types `D`: the bytes of a message, the message of a type that bytes stand for, and for
each compression what its library writes into, and restores in, so many bytes; `none` when
it reports failure. `residue` is what lies in the space that a decompression is given. -/
structure Libraries (M D : Type) where
  serialize : M → List UInt8
  parse : D → List UInt8 → Option M
  compress : CompressType → List UInt8 → ℕ → Option (List UInt8)
  decompress : CompressType → List UInt8 → ℕ → Option (List UInt8)
  residue : ℕ → UInt8

/-- What the compression libraries document: what was compressed is restored where there is
room for it, and the output is hardly longer than the input (`LZ4_compressBound`,
`ZSTD_compressBound`, and the largest of the three, `snappy::MaxCompressedLength`). -/
structure Libraries.Documented {M D : Type} (lib : Libraries M D) : Prop where
  roundTrip : ∀ {type : CompressType} {data out : List UInt8} {room : ℕ},
    lib.compress type data room = some out →
    ∀ {room' : ℕ}, data.length ≤ room' → lib.decompress type out room' = some data
  bounded : ∀ {type : CompressType} {data out : List UInt8} {room : ℕ},
    lib.compress type data room = some out → out.length ≤ data.length + data.length / 6 + 64

/-- `Reset` and `EnsureWritableBytes(len)` on a buffer with `writable` bytes behind an empty
content: the writable bytes afterwards. The buffer keeps eight bytes in front, and grows to
twice its capacity and `len` more. -/
def ensureWritable (writable len : ℕ) : ℕ :=
  if writable < len then 2 * (writable + 8) + len - 8 else writable

/-- There is room afterwards. -/
theorem le_ensureWritable (writable len : ℕ) : len ≤ ensureWritable writable len := by
  rw [ensureWritable]
  split_ifs <;> omega

/-- The room is exact only if it was before. -/
theorem ensureWritable_eq_iff {writable len : ℕ} :
    ensureWritable writable len = len ↔ writable = len := by
  rw [ensureWritable]
  split_ifs <;> omega

/-- A compression buffer that a connection keeps: its contents and its writable bytes. -/
structure CompressBuffer where
  packed : List UInt8 := []
  writable : ℕ := 1024
  deriving Repr, DecidableEq

/-- What encoding comes to: more bytes than the block has room for have been written, and the
assertion of `WriteBytes` fails; the answer `false`; or what has been made. -/
inductive Encoding (α : Type)
  | overrun
  | refused
  | made (a : α)
  deriving Repr, DecidableEq

namespace Encoding

variable {α β : Type}

/-- What is made of what has been made. -/
def map (f : α → β) : Encoding α → Encoding β
  | overrun => overrun
  | refused => refused
  | made a => made (f a)

/-- What has been made, if anything. -/
def made? : Encoding α → Option α
  | made a => some a
  | overrun | refused => none

theorem map_eq_made {x : Encoding α} {f : α → β} {b : β} :
    x.map f = made b ↔ ∃ a, x = made a ∧ f a = b := by
  cases x <;> simp [map]

@[simp] theorem made?_eq_some {x : Encoding α} {a : α} : x.made? = some a ↔ x = made a := by
  cases x <;> simp [made?]

end Encoding

section Codec

variable {M D : Type} (lib : Libraries M D)

/-- `Compression::compress`, with the assertion of `WriteBytes` behind it: a result that is not
positive is refused. Only snappy is not told the room, and may give more than fits. -/
def compressInto (type : CompressType) (data : List UInt8) (writable : ℕ) :
    Encoding (List UInt8) :=
  match lib.compress type data writable with
  | none => .refused
  | some out =>
      if out.length = 0 then .refused else if out.length ≤ writable then .made out else .overrun

/-- `Compression::decompress`: the value returned and so many bytes of the output. The
wrapper of snappy returns the size of the output space, not that of the output, and does so
whether or not the library reports failure. -/
def decompressInto (type : CompressType) (data : List UInt8) (writable : ℕ) :
    Option (ℕ × List UInt8) :=
  if type = .snappy then
    let out := (lib.decompress type data writable).getD []
    some (writable, out ++ (List.range (writable - out.length)).map lib.residue)
  else (lib.decompress type data writable).map fun out => (out.length, out)

/-- The body of a message as both encoders make it: the contents of the data buffer, of the
compression buffer, and the writable bytes of the latter. Fails when protobuf refuses a
message of `2 ^ 31` bytes or more, or the compression fails. -/
def encodeBody (type : CompressType) (msg : M) (packed : List UInt8) (writable : ℕ) :
    Encoding (List UInt8 × List UInt8 × ℕ) :=
  let data := lib.serialize msg
  if data.length < 2 ^ 31 then
    if type = .noCompression then .made (data, packed, writable)
    else
      let room := ensureWritable writable data.length
      (compressInto lib type data room).map fun out => (data, out, room)
  else .refused

/-- The size fields of a meta: the size of the compressed body, if there is one, and that of
the plain one. -/
def sizeFields (type : CompressType) (data packed : List UInt8) : List UInt8 :=
  (if type = .noCompression then [] else beBytes 4 packed.length) ++ beBytes 4 data.length

theorem length_sizeFields_le (type : CompressType) (data packed : List UInt8) :
    (sizeFields type data packed).length ≤ 8 := by
  rw [sizeFields]
  split_ifs <;> simp

/-- `PrependInt32(size())`. -/
def withSize (fields : List UInt8) : List UInt8 := beBytes 4 fields.length ++ fields

/-- What decoding a body comes to: a failed assertion, the answer `false`, or the message. -/
inductive Decoded (M : Type)
  | aborted
  | refused
  | message (m : M)
  deriving Repr, DecidableEq

/-- `ParseFromArray`. -/
def parseFromArray (d : D) (data : List UInt8) : Decoded M :=
  (lib.parse d data).elim .refused .message

/-- `DecodeRequestData` and `DecodeResponseData`, which are the same code: the result, and
the writable bytes of the compression buffer. A type byte of 36 or more is refused here like one
that no compressor has; the constructor of `Compression` reads behind the end of
`compression_funcs` for it, which `RpcHostile` has as an outcome of its own. -/
def decodeData (d : D) (type : UInt8) (uncompressedSize : ℕ) (data : List UInt8)
    (writable : ℕ) : Decoded M × ℕ :=
  if type = CompressType.noCompression.toByte then (parseFromArray lib d data, writable)
  else
    let room := ensureWritable writable uncompressedSize
    match (CompressType.compressor type).bind fun t => decompressInto lib t data room with
    | none => (.refused, room)
    | some (size, out) =>
        if size = 0 then (.refused, room)
        else if size ≠ uncompressedSize then (.aborted, room)
        else (parseFromArray lib d out, room)

end Codec

/-! ### Reading a meta -/

/-- `ReadUInt8`, `ReadUInt16`, `ReadUInt32`, `ReadInt32`: a number of `k` bytes, which must
be there. -/
def readUInt (k : ℕ) (buffer : List UInt8) : Outcome (ℕ × List UInt8) :=
  if k ≤ buffer.length then .returns (beVal (buffer.take k), buffer.drop k) else .aborts

/-- `Next(len)`: so many bytes, or all there are. -/
def next (len : ℕ) (buffer : List UInt8) : List UInt8 × List UInt8 :=
  (buffer.take len, buffer.drop len)

/-- A number written with `k` bytes and read back. -/
theorem readUInt_beBytes (k n : ℕ) (rest : List UInt8) :
    readUInt k (beBytes k n ++ rest) = .returns (n % 256 ^ k, rest) := by
  rw [readUInt, if_pos (by simp), List.take_left' (length_beBytes k n),
    List.drop_left' (length_beBytes k n), beVal_beBytes]

/-- A size that fits in its four bytes. -/
theorem size_mod {n : ℕ} (h : n < 2 ^ 32) : n % 256 ^ 4 = n := Nat.mod_eq_of_lt (by omega)

/-- A size at the end of a buffer. -/
theorem readUInt_size {n : ℕ} (h : n < 2 ^ 32) :
    readUInt 4 (beBytes 4 n) = .returns (n, []) := by
  have hread := readUInt_beBytes 4 n []
  rwa [List.append_nil, size_mod h] at hread

/-- What `Next` returns is no longer than asked for. -/
theorem length_next_le (len : ℕ) (buffer : List UInt8) : (next len buffer).1.length ≤ len := by
  simp [next]

theorem next_append (name rest : List UInt8) : next name.length (name ++ rest) = (name, rest) := by
  simp [next]

/-- A byte that is read is below 256. -/
theorem readUInt_one_lt {buffer rest : List UInt8} {n : ℕ}
    (h : readUInt 1 buffer = .returns (n, rest)) : n < 256 := by
  rw [readUInt] at h
  split_ifs at h with hlen
  obtain ⟨rfl, -⟩ := Prod.mk.inj (Outcome.returns.inj h)
  have := beVal_lt (buffer.take 1)
  rwa [List.length_take, Nat.min_eq_left hlen] at this

/-! ### Requests -/

/-- `enum RPCError`, the values that concern a single call. -/
inductive RPCError
  | requestMetaDecodeErr
  | serviceNameNotFound
  | methodNameNotFound
  | readRequestDataErr
  | parseRequestDataErr
  | parseResponseDataErr
  | businessError
  | rpcRecvRemoteErr
  | rpcSuccess
  | rpcHeartBeat
  deriving Repr, DecidableEq

/-- The value of an error code. -/
def RPCError.code : RPCError → ℤ
  | requestMetaDecodeErr => -8001
  | serviceNameNotFound => -8003
  | methodNameNotFound => -8004
  | readRequestDataErr => -8005
  | parseRequestDataErr => -8006
  | parseResponseDataErr => -8007
  | businessError => -8100
  | rpcRecvRemoteErr => -8300
  | rpcSuccess => 1
  | rpcHeartBeat => 2

/-- `MAGIC_VALUE`. -/
def magicValue : ℕ := 0x1997

/-- `struct PBRpcReqMeta`. -/
structure ReqMeta where
  serviceName : List UInt8
  methodName : List UInt8
  compressType : UInt8
  streamingType : UInt8
  dataSize : ℕ
  uncompressedSize : ℕ
  deriving Repr, DecidableEq

/-- The fields that `EncodeRPCRequest` appends to the meta buffer. -/
def requestFields (service method : List UInt8) (type : CompressType) (streaming : Bool)
    (data packed : List UInt8) : List UInt8 :=
  beBytes 2 magicValue ++ (beBytes 1 service.length ++ (service ++
    (beBytes 1 method.length ++ (method ++ (beBytes 1 type.toByte.toNat ++
      (beBytes 1 streaming.toNat ++ sizeFields type data packed))))))

/-- `DecodeRequestMeta`: the meta, or `none` for the answer `false`. -/
def decodeRequestMeta (buffer : List UInt8) : Outcome (Option ReqMeta) := do
  let (magic, b) ← readUInt 2 buffer
  if magic ≠ magicValue then .returns none
  else
    let (n, b) ← readUInt 1 b
    let (service, b) := next n b
    let (m, b) ← readUInt 1 b
    let (method, b) := next m b
    let (compressType, b) ← readUInt 1 b
    let (streamingType, b) ← readUInt 1 b
    let (dataSize, b) ← readUInt 4 b
    if UInt8.ofNat compressType = CompressType.noCompression.toByte then
      .returns (some ⟨service, method, UInt8.ofNat compressType, UInt8.ofNat streamingType,
        dataSize, 0⟩)
    else
      let (uncompressedSize, _) ← readUInt 4 b
      .returns (some ⟨service, method, UInt8.ofNat compressType, UInt8.ofNat streamingType,
        dataSize, uncompressedSize⟩)

/-- The body that is sent: the compressed one if there is one. -/
def bodyOf (type : CompressType) (data packed : List UInt8) : List UInt8 :=
  if type = .noCompression then data else packed

/-- The uncompressed size that a decoded meta names; none for a plain body. -/
def uncompressedOf (type : CompressType) (data : List UInt8) : ℕ :=
  if type = .noCompression then 0 else data.length

/-- The names in a decoded meta are no longer than 255 bytes, whatever was decoded. -/
theorem decodeRequestMeta_names {buffer : List UInt8} {reqMeta : ReqMeta}
    (h : decodeRequestMeta buffer = .returns (some reqMeta)) :
    reqMeta.serviceName.length ≤ 255 ∧ reqMeta.methodName.length ≤ 255 := by
  rw [decodeRequestMeta, Outcome.bind_eq_returns] at h
  obtain ⟨⟨magic, b₀⟩, -, h⟩ := h
  dsimp only at h
  split_ifs at h
  · exact absurd (Outcome.returns.inj h) (by simp)
  · simp only [Outcome.bind_eq_returns] at h
    obtain ⟨⟨n, b₁⟩, hn, ⟨m, b₂⟩, hm, ⟨c, b₃⟩, -, ⟨t, b₄⟩, -, ⟨size, b₅⟩, -, h⟩ := h
    have hservice := length_next_le n b₁
    have hmethod := length_next_le m b₂
    have hn' := readUInt_one_lt hn
    have hm' := readUInt_one_lt hm
    split_ifs at h
    · obtain rfl := Option.some.inj (Outcome.returns.inj h)
      exact ⟨by simp only; omega, by simp only; omega⟩
    · obtain ⟨⟨u, b₆⟩, -, h⟩ := Outcome.bind_eq_returns.mp h
      obtain rfl := Option.some.inj (Outcome.returns.inj h)
      exact ⟨by simp only; omega, by simp only; omega⟩

/-! ### Responses -/

/-- `struct PBRpcRespMeta`. -/
structure RespMeta where
  statusCode : ℤ
  errorMsg : List UInt8
  compressType : UInt8
  streamingType : UInt8
  dataSize : ℕ
  uncompressedSize : ℕ
  deriving Repr, DecidableEq

/-- `AppendInt32`. -/
def int32Bytes (x : ℤ) : List UInt8 := beBytes 4 (x % 2 ^ 32).toNat

/-- The fields that `EncodeRPCErrorResponse` appends to the meta buffer. -/
def errorFields (code : ℤ) (errMsg : List UInt8) : List UInt8 :=
  int32Bytes code ++ (beBytes 1 errMsg.length ++ (errMsg ++
    (beBytes 1 CompressType.noCompression.toByte.toNat ++ (beBytes 1 0 ++ beBytes 4 0))))

/-- The fields that `EncodeRPCResponse` appends to the meta buffer. -/
def responseFields (code : ℤ) (errMsg : List UInt8) (type : CompressType) (streaming : Bool)
    (data packed : List UInt8) : List UInt8 :=
  int32Bytes code ++ (beBytes 1 errMsg.length ++ (errMsg ++
    (beBytes 1 type.toByte.toNat ++ (beBytes 1 streaming.toNat ++
      sizeFields type data packed))))

/-- `DecodeResponseMeta`. -/
def decodeResponseMeta (buffer : List UInt8) : Outcome RespMeta := do
  let (code, b) ← readUInt 4 buffer
  let (n, b) ← readUInt 1 b
  let (errMsg, b) := next n b
  let (compressType, b) ← readUInt 1 b
  let (streamingType, b) ← readUInt 1 b
  let (dataSize, b) ← readUInt 4 b
  if UInt8.ofNat compressType = CompressType.noCompression.toByte then
    .returns ⟨asInt code, errMsg, UInt8.ofNat compressType, UInt8.ofNat streamingType,
      dataSize, 0⟩
  else
    let (uncompressedSize, _) ← readUInt 4 b
    .returns ⟨asInt code, errMsg, UInt8.ofNat compressType, UInt8.ofNat streamingType,
      dataSize, uncompressedSize⟩

/-- A status is read back. -/
theorem readUInt_int32 {x : ℤ} (hlo : -2 ^ 31 ≤ x) (hhi : x < 2 ^ 31) (rest : List UInt8) :
    ∃ n, asInt n = x ∧ readUInt 4 (int32Bytes x ++ rest) = .returns (n, rest) := by
  refine ⟨(x % 2 ^ 32).toNat % 256 ^ 4, ?_, readUInt_beBytes _ _ _⟩
  have hlt : (x % 2 ^ 32).toNat < 256 ^ 4 := by omega
  rw [Nat.mod_eq_of_lt hlt, asInt]
  split_ifs <;> omega

/-- The text in a decoded meta is no longer than 255 bytes, whatever was decoded. -/
theorem decodeResponseMeta_text {buffer : List UInt8} {respMeta : RespMeta}
    (h : decodeResponseMeta buffer = .returns respMeta) : respMeta.errorMsg.length ≤ 255 := by
  simp only [decodeResponseMeta, Outcome.bind_eq_returns] at h
  obtain ⟨⟨code, b₀⟩, -, ⟨n, b₁⟩, hn, ⟨c, b₂⟩, -, ⟨t, b₃⟩, -, ⟨size, b₄⟩, -, h⟩ := h
  have htext := length_next_le n b₁
  have hn' := readUInt_one_lt hn
  split_ifs at h
  · obtain rfl := Outcome.returns.inj h
    simp only
    omega
  · obtain ⟨⟨u, b₅⟩, -, h⟩ := Outcome.bind_eq_returns.mp h
    obtain rfl := Outcome.returns.inj h
    simp only
    omega

/-! ### Bodies -/

section Codec

variable {M D : Type} {lib : Libraries M D}

/-- What an encoded body is made of. -/
theorem encodeBody_eq_made {type : CompressType} {msg : M} {old data packed : List UInt8}
    {writable room : ℕ} (h : encodeBody lib type msg old writable = .made (data, packed, room)) :
    data = lib.serialize msg ∧ data.length < 2 ^ 31 ∧
      (type = .noCompression → packed = old ∧ room = writable) ∧
      (type ≠ .noCompression → room = ensureWritable writable data.length ∧
        compressInto lib type data room = .made packed) := by
  rw [encodeBody] at h
  split_ifs at h with hlen ht
  · obtain ⟨rfl, rfl, rfl⟩ : lib.serialize msg = data ∧ old = packed ∧ writable = room := by
      simpa using h
    exact ⟨rfl, hlen, fun _ => ⟨rfl, rfl⟩, fun hne => absurd ht hne⟩
  · obtain ⟨out, hout, heq⟩ := Encoding.map_eq_made.mp h
    obtain ⟨rfl, rfl, rfl⟩ : lib.serialize msg = data ∧ out = packed ∧
        ensureWritable writable (lib.serialize msg).length = room := by
      simpa using heq
    exact ⟨rfl, hlen, fun he => absurd he ht, fun _ => ⟨rfl, hout⟩⟩

/-- A compressed body is neither empty nor too long for its size field. -/
theorem compressInto_length (hdoc : lib.Documented) {type : CompressType}
    {data out : List UInt8} {room : ℕ} (hdata : data.length < 2 ^ 31)
    (h : compressInto lib type data room = .made out) :
    lib.compress type data room = some out ∧ 0 < out.length ∧ out.length < 2 ^ 32 - 4 := by
  rw [compressInto] at h
  cases hout : lib.compress type data room with
  | none =>
      rw [hout] at h
      cases h
  | some out' =>
      simp only [hout] at h
      split_ifs at h with hzero hfits
      obtain rfl := Encoding.made.inj h
      have hbound := hdoc.bounded hout
      exact ⟨rfl, by omega, by omega⟩

/-- A body that was encoded: its sizes fit in their fields, and a compressed one is what the
library has made of the serialization. -/
theorem encodeBody_spec (hdoc : lib.Documented) {type : CompressType} {msg : M}
    {old data packed : List UInt8} {writable room : ℕ}
    (h : encodeBody lib type msg old writable = .made (data, packed, room)) :
    data = lib.serialize msg ∧ data.length < 2 ^ 31 ∧
      (type ≠ .noCompression → packed.length < 2 ^ 32 ∧
        lib.compress type data room = some packed ∧ packed ≠ []) := by
  obtain ⟨hdata, hlen, -, hcompressed⟩ := encodeBody_eq_made h
  refine ⟨hdata, hlen, fun ht => ?_⟩
  obtain ⟨hout, hpos, hlt⟩ := compressInto_length hdoc hlen (hcompressed ht).2
  exact ⟨by omega, hout, List.length_pos_iff.mp hpos⟩

/-- The bodies that come through: with bytes to read, and of snappy only one that the buffer
has just the room for. -/
def Receivable (type : CompressType) (data : List UInt8) (writable : ℕ) : Prop :=
  data ≠ [] ∧ (type = .snappy → writable = data.length)

/-- The writable bytes of the compression buffer after a body has been decoded. -/
def roomAfter (type : CompressType) (writable len : ℕ) : ℕ :=
  if type = .noCompression then writable else ensureWritable writable len

/-- `StreamingEncode`, with `room` writable bytes behind the size field: the contents of the
buffer. -/
def streamingEncode (lib : Libraries M D) (room : ℕ) (msg : M) : Encoding (List UInt8) :=
  let data := lib.serialize msg
  if data.length < 2 ^ 31 then
    (compressInto lib .zstd data room).map fun out => beBytes 4 data.length ++ out
  else .refused

/-- A streaming buffer fits in a frame whose length is read as 32 bits. -/
theorem streamingEncode_length (hdoc : lib.Documented) {room : ℕ} {msg : M}
    {buffer : List UInt8} (h : streamingEncode lib room msg = .made buffer) :
    buffer.length < 2 ^ 32 := by
  rw [streamingEncode] at h
  split_ifs at h with hlen
  obtain ⟨out, hout, rfl⟩ := Encoding.map_eq_made.mp h
  have hshort := (compressInto_length hdoc hlen hout).2.2
  rw [List.length_append, length_beBytes]
  omega

end Codec

/-! ### Short data -/

/-- What each library writes in front of data of fewer than fifteen bytes that it stores as
they are: the token of an LZ4 block of literals, the size and the tag of a snappy literal,
the frame and block headers of zstd. -/
def storedHeader (type : CompressType) (len : ℕ) : List UInt8 :=
  match type with
  | .noCompression => []
  | .lz4 | .lz4Fast => [UInt8.ofNat (16 * len)]
  | .snappy => if len = 0 then [0] else [UInt8.ofNat len, UInt8.ofNat (4 * (len - 1))]
  | .zstd | .zstdHigh =>
      [0x28, 0xB5, 0x2F, 0xFD, 0x20, UInt8.ofNat len, UInt8.ofNat (8 * len + 1), 0, 0]

/-- The libraries on short data: messages that are their own bytes, and bodies stored as
they are. -/
def storedLibrary : Libraries (List UInt8) Unit where
  serialize m := m
  parse _ data := some data
  compress type data room :=
    let out := storedHeader type data.length ++ data
    if data.length < 15 ∧ out.length ≤ room then some out else none
  decompress type out room :=
    let data := out.drop (storedHeader type 1).length
    if data.length ≤ room then some data else none
  residue _ := 0

/-- The header is dropped whole. -/
theorem drop_storedHeader (type : CompressType) (data : List UInt8) :
    (storedHeader type data.length ++ data).drop (storedHeader type 1).length = data := by
  cases data with
  | nil => cases type <;> rfl
  | cons b data => cases type <;> rfl

theorem storedLibrary_documented : storedLibrary.Documented where
  roundTrip := by
    intro type data out room h room' hroom
    obtain ⟨-, rfl⟩ : _ ∧ storedHeader type data.length ++ data = out := by
      simpa [storedLibrary] using h
    simp only [storedLibrary, drop_storedHeader, if_pos hroom]
  bounded := by
    intro type data out room h
    obtain ⟨-, rfl⟩ : _ ∧ storedHeader type data.length ++ data = out := by
      simpa [storedLibrary] using h
    have hheader : (storedHeader type data.length).length ≤ 9 := by
      cases type with
      | snappy =>
          rw [storedHeader]
          split_ifs <;> simp
      | _ => simp [storedHeader]
    rw [List.length_append]
    omega

end ArchNet

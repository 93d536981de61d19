import ArchNet.PBCodec

/-!
# Decoding What Any Peer May Send

The metas and bodies that reach `PBCodec` come from the wire, so their contents are the
peer's choice. The decoders read a chain of fields, each behind an assertion on the bytes
that are left, and the type byte of a meta selects the entry of `compression_funcs` that
restores the body.

This module says exactly which bytes the decoders answer, with a result or with `false`:

* a meta, if it holds all of its fields (`requestMetaSize`, `responseMetaSize`), or, for a
  request, if it holds two bytes that are not the magic value;
* a body, if the type byte lies in the table and the restored body has the size that the
  meta announces, or is not restored at all (`Answerable`).

## Conventions

`Next` takes what there is, so a name that is announced longer than the bytes that follow
leaves nothing for the field behind it. The number of bytes that `snappy::RawUncompress`
writes is announced in the stream itself (`snappyLength`); the wrapper does not compare it
with the room that it was given.
-/

namespace ArchNet.Hostile

open Bytes

/-! ### Metas -/

/-- The byte at a position, as a number; zero behind the end. -/
def byteAt (b : List UInt8) (i : ℕ) : ℕ := beVal (span b i 1)

/-- The size of the last field of a meta, which only compressed bodies have. -/
def lastFieldSize (type : ℕ) : ℕ :=
  if UInt8.ofNat type = CompressType.noCompression.toByte then 0 else 4

/-- The size of the request meta that starts with the given bytes: magic value, two names
with their lengths, two types, one or two sizes. -/
def requestMetaSize (b : List UInt8) : ℕ :=
  let n := byteAt b 2
  let m := byteAt b (3 + n)
  10 + n + m + lastFieldSize (byteAt b (4 + n + m))

/-- The size of the response meta that starts with the given bytes: status, text with its
length, two types, one or two sizes. -/
def responseMetaSize (b : List UInt8) : ℕ :=
  let n := byteAt b 4
  11 + n + lastFieldSize (byteAt b (5 + n))

/-- The request meta **holds what the decoder reads**. -/
def RequestMetaWhole (b : List UInt8) : Prop :=
  2 ≤ b.length ∧ (beVal (b.take 2) = magicValue → requestMetaSize b ≤ b.length)

/-- The response meta **holds what the decoder reads**. -/
def ResponseMetaWhole (b : List UInt8) : Prop := responseMetaSize b ≤ b.length

/-- The call comes back. -/
def Answers {α : Type} (x : Outcome α) : Prop := ∃ a, x = .returns a

@[simp] theorem answers_returns {α : Type} (a : α) : Answers (.returns a) := ⟨a, rfl⟩

/-- **One read at a position**: it comes back if the bytes are there, and the rest is read
behind them. -/
theorem answers_readUInt_bind {α : Type} {b : List UInt8} {i k : ℕ} (hk : 0 < k)
    (f : ℕ × List UInt8 → Outcome α) :
    Answers (readUInt k (b.drop i) >>= f) ↔
      i + k ≤ b.length ∧ Answers (f (beVal (span b i k), b.drop (i + k))) := by
  rw [readUInt, List.length_drop]
  by_cases h : k ≤ b.length - i
  · rw [if_pos h, Outcome.bind_returns, List.drop_drop]
    exact ⟨fun hf => ⟨by omega, hf⟩, fun hf => hf.2⟩
  · rw [if_neg h]
    constructor
    · rintro ⟨a, ha⟩
      cases ha
    · rintro ⟨hle, -⟩
      omega

/-- `Next` at a position. -/
theorem next_drop (n i : ℕ) (b : List UInt8) :
    next n (b.drop i) = (span b i n, b.drop (i + n)) := by
  rw [next, List.drop_drop, span]

/-- The last field, with the bytes in front of it there. -/
theorem answers_lastField {α : Type} {b : List UInt8} {i type : ℕ} (x : α)
    (f : ℕ × List UInt8 → Outcome α) (hf : ∀ p, Answers (f p)) :
    (i ≤ b.length ∧ Answers (if UInt8.ofNat type = CompressType.noCompression.toByte then
      .returns x else readUInt 4 (b.drop i) >>= f)) ↔ i + lastFieldSize type ≤ b.length := by
  rw [lastFieldSize]
  split_ifs with htype
  · exact and_iff_left (answers_returns x)
  · rw [answers_readUInt_bind (by decide)]
    constructor
    · rintro ⟨-, hle, -⟩
      exact hle
    · intro hle
      exact ⟨by omega, hle, hf _⟩

/-- **A request meta is answered** if and only if it holds what the decoder reads. -/
theorem answers_decodeRequestMeta (b : List UInt8) :
    Answers (decodeRequestMeta b) ↔ RequestMetaWhole b := by
  have hstart : decodeRequestMeta b = decodeRequestMeta (b.drop 0) := rfl
  rw [hstart, decodeRequestMeta, answers_readUInt_bind Nat.two_pos]
  dsimp only
  rw [RequestMetaWhole]
  refine and_congr (by rw [Nat.zero_add]) ?_
  rw [show span b 0 2 = b.take 2 from rfl]
  by_cases hmagic : beVal (b.take 2) = magicValue
  · have hsize : 0 < 4 := by decide
    rw [if_neg (not_not.mpr hmagic)]
    simp only [hmagic, true_implies, answers_readUInt_bind Nat.one_pos,
      answers_readUInt_bind hsize, next_drop, Nat.zero_add, Nat.reduceAdd]
    rw [answers_lastField _ _ fun _ => answers_returns _, requestMetaSize, byteAt, byteAt, byteAt]
    generalize beVal (span b 2 1) = n
    generalize beVal (span b (3 + n) 1) = m
    rw [show 3 + n + 1 + m = 4 + n + m by omega]
    generalize lastFieldSize _ = k
    omega
  · rw [if_pos hmagic]
    exact iff_of_true (answers_returns _) fun h => absurd h hmagic

/-- **A response meta is answered** if and only if it holds what the decoder reads. -/
theorem answers_decodeResponseMeta (b : List UInt8) :
    Answers (decodeResponseMeta b) ↔ ResponseMetaWhole b := by
  have hstart : decodeResponseMeta b = decodeResponseMeta (b.drop 0) := rfl
  have hsize : 0 < 4 := by decide
  rw [hstart, decodeResponseMeta]
  simp only [answers_readUInt_bind Nat.one_pos, answers_readUInt_bind hsize, next_drop,
    Nat.zero_add, Nat.reduceAdd]
  rw [answers_lastField _ _ fun _ => answers_returns _, ResponseMetaWhole, responseMetaSize,
    byteAt, byteAt]
  generalize beVal (span b 4 1) = n
  generalize lastFieldSize _ = k
  omega

/-! ### Bodies -/

/-- `compression_funcs`; `none` is a null entry. -/
def compressionFuncs : List (Option CompressType) :=
  [none, none,
    some .lz4, none,
    some .lz4Fast, none, none, none,
    some .snappy, none, none, none, none, none, none, none,
    some .zstd, none, none, none, none, none, none, none,
    none, none, none, none, none, none, none, none,
    some .zstdHigh, none, none, none]

/-- Inside the table, the entry is the one that the decoders take. -/
theorem compressionFuncs_eq {type : UInt8} (h : type.toNat < compressionFuncs.length) :
    compressionFuncs[type.toNat]? = some (CompressType.compressor type) := by
  have hall : ∀ i : Fin 36,
      compressionFuncs[i.val]? = some (CompressType.compressor (UInt8.ofNat i.val)) := by decide
  have htype := hall ⟨type.toNat, h⟩
  simpa using htype

/-- What decoding a body comes to: the table is indexed beyond its end, the library writes
beyond the room that it was given, an assertion fails, or the call answers. -/
inductive BodyOutcome (M : Type)
  | indexOutOfRange
  | overrun
  | aborts
  | answers (message : Option M)
  deriving Repr, DecidableEq

/-- The outcome of the part behind the table. -/
def BodyOutcome.ofDecoded {M : Type} : Decoded M → BodyOutcome M
  | .aborted => .aborts
  | .refused => .answers none
  | .message m => .answers (some m)

section Bodies

variable {M D : Type} (lib : Libraries M D) (snappyLength : List UInt8 → ℕ)

/-- `DecodeRequestData` and `DecodeResponseData` for any type byte and any data, with a
compression buffer of so many writable bytes or none: the constructor of `Compression`
indexes the table before the body is restored. -/
def decodeBody (d : D) (type : UInt8) (uncompressedSize : ℕ) (data : List UInt8) :
    Option ℕ → BodyOutcome M
  | none => .ofDecoded (parseFromArray lib d data)
  | some writable =>
      if type = CompressType.noCompression.toByte then .ofDecoded (parseFromArray lib d data)
      else if compressionFuncs.length ≤ type.toNat then .indexOutOfRange
      else if compressionFuncs[type.toNat]? = some (some .snappy) ∧
          ensureWritable writable uncompressedSize < snappyLength data then .overrun
      else .ofDecoded (decodeData lib d type uncompressedSize data writable).1

/-- The library **restores the announced size, or nothing**. Snappy's wrapper returns the
room, so there the room must be the announced size, and hold what the stream writes. -/
def RestoresAnnounced (t : CompressType) (uncompressedSize : ℕ) (data : List UInt8)
    (writable : ℕ) : Prop :=
  if t = .snappy then writable = uncompressedSize ∧ snappyLength data ≤ uncompressedSize
  else ∀ out, lib.decompress t data (ensureWritable writable uncompressedSize) = some out →
    out = [] ∨ out.length = uncompressedSize

/-- The bodies that are **answered**: plain ones, those that no buffer is there to restore,
and those whose type lies in the table and that restore to the announced size. -/
def Answerable (type : UInt8) (uncompressedSize : ℕ) (data : List UInt8)
    (compressBuffer : Option ℕ) : Prop :=
  type ≠ CompressType.noCompression.toByte → ∀ writable, compressBuffer = some writable →
    type.toNat < compressionFuncs.length ∧
    ∀ t, CompressType.compressor type = some t →
      RestoresAnnounced lib snappyLength t uncompressedSize data writable

end Bodies

section Bodies

variable {M D : Type} {lib : Libraries M D} {snappyLength : List UInt8 → ℕ}

/-- The part behind the table answers unless its assertion on the size fails. -/
theorem answers_ofDecoded {x : Decoded M} :
    (∃ o, BodyOutcome.ofDecoded x = .answers o) ↔ x ≠ .aborted := by
  cases x with
  | aborted => simp [BodyOutcome.ofDecoded]
  | refused => simp [BodyOutcome.ofDecoded]
  | message m => simp [BodyOutcome.ofDecoded]

/-- Parsing does not abort. -/
theorem parseFromArray_ne_aborted (d : D) (data : List UInt8) :
    parseFromArray lib d data ≠ .aborted := by
  rw [parseFromArray]
  cases lib.parse d data with
  | none => simp
  | some m => simp

/-- The assertion on the size fails exactly where something else than the announced size
was restored. -/
theorem decodeData_ne_aborted {type : UInt8} (htype : type ≠ CompressType.noCompression.toByte)
    (d : D) (uncompressedSize : ℕ) (data : List UInt8) (writable : ℕ) :
    (decodeData lib d type uncompressedSize data writable).1 ≠ .aborted ↔
      ∀ t, CompressType.compressor type = some t →
        ∀ size out, decompressInto lib t data (ensureWritable writable uncompressedSize) =
          some (size, out) → size = 0 ∨ size = uncompressedSize := by
  rw [decodeData, if_neg htype]
  dsimp only
  cases hentry : CompressType.compressor type with
  | none => simp
  | some t =>
      rw [Option.bind_some]
      cases hout : decompressInto lib t data (ensureWritable writable uncompressedSize) with
      | none => simp [hout]
      | some p =>
          obtain ⟨size, out⟩ := p
          have hparse : parseFromArray lib d out ≠ .aborted := parseFromArray_ne_aborted d out
          simp only [Option.some.injEq, forall_eq', hout, Prod.mk.injEq, and_imp]
          constructor
          · rintro hne n o rfl rfl
            by_contra hnot
            rw [not_or] at hnot
            rw [if_neg hnot.1, if_pos hnot.2] at hne
            exact hne rfl
          · intro hsize
            rcases hsize size out rfl rfl with h | h
            · rw [if_pos h]
              simp
            · split_ifs with h0 hne
              · simp
              · exact absurd h hne
              · exact hparse

/-- What is restored, and whether the room suffices, by the kind of library. -/
theorem restoresAnnounced_iff {t : CompressType} {uncompressedSize writable : ℕ}
    {data : List UInt8} :
    RestoresAnnounced lib snappyLength t uncompressedSize data writable ↔
      ¬ (t = .snappy ∧ ensureWritable writable uncompressedSize < snappyLength data) ∧
      ∀ size out, decompressInto lib t data (ensureWritable writable uncompressedSize) =
        some (size, out) → size = 0 ∨ size = uncompressedSize := by
  have hroom := le_ensureWritable writable uncompressedSize
  rw [RestoresAnnounced]
  by_cases hsn : t = .snappy
  · simp only [hsn, decompressInto, true_and, Nat.not_lt, Option.some.injEq, Prod.mk.injEq,
      and_imp, if_true]
    constructor
    · rintro ⟨hw, hle⟩
      have hexact := ensureWritable_eq_iff.mpr hw
      refine ⟨by omega, ?_⟩
      rintro size out rfl -
      exact .inr hexact
    · rintro ⟨hle, hsize⟩
      have hexact : ensureWritable writable uncompressedSize = uncompressedSize := by
        have := hsize _ _ rfl rfl
        omega
      exact ⟨ensureWritable_eq_iff.mp hexact, by omega⟩
  · rw [if_neg hsn, decompressInto, if_neg hsn, and_iff_right fun h => hsn h.1]
    simp only [Option.map_eq_some_iff, Prod.mk.injEq]
    constructor
    · intro hall size out hout
      obtain ⟨out', hout', rfl, -⟩ := hout
      exact (hall out' hout').imp_left fun h => by rw [h, List.length_nil]
    · intro hall out hout
      exact (hall _ _ ⟨out, hout, rfl, rfl⟩).imp_left List.eq_nil_of_length_eq_zero

/-- **A body is answered** if and only if it is one of the answerable ones. -/
theorem answers_decodeBody (d : D) (type : UInt8) (uncompressedSize : ℕ) (data : List UInt8)
    (compressBuffer : Option ℕ) :
    (∃ o, decodeBody lib snappyLength d type uncompressedSize data compressBuffer =
      .answers o) ↔ Answerable lib snappyLength type uncompressedSize data compressBuffer := by
  have hplain : ∃ o, BodyOutcome.ofDecoded (parseFromArray lib d data) = .answers o :=
    answers_ofDecoded.mpr (parseFromArray_ne_aborted d data)
  cases compressBuffer with
  | none => exact iff_of_true hplain fun _ _ h => by cases h
  | some writable =>
      rw [decodeBody]
      by_cases htype : type = CompressType.noCompression.toByte
      · rw [if_pos htype]
        exact iff_of_true hplain fun h => absurd htype h
      have hanswer : Answerable lib snappyLength type uncompressedSize data (some writable) ↔
          type.toNat < compressionFuncs.length ∧ ∀ t, CompressType.compressor type = some t →
            RestoresAnnounced lib snappyLength t uncompressedSize data writable := by
        simp only [Answerable, ne_eq, htype, not_false_eq_true, true_implies, Option.some.injEq,
          forall_eq']
      rw [if_neg htype, hanswer]
      by_cases hin : compressionFuncs.length ≤ type.toNat
      · rw [if_pos hin]
        exact iff_of_false (by simp) fun h => absurd h.1 (Nat.not_lt.mpr hin)
      · have hlt := Nat.not_le.mp hin
        have hentry : compressionFuncs[type.toNat]? = some (some .snappy) ↔
            CompressType.compressor type = some .snappy := by
          rw [compressionFuncs_eq hlt, Option.some.injEq]
        rw [if_neg hin, and_iff_right hlt]
        simp only [hentry, restoresAnnounced_iff]
        by_cases hover : CompressType.compressor type = some .snappy ∧
            ensureWritable writable uncompressedSize < snappyLength data
        · rw [if_pos hover]
          exact iff_of_false (by simp) fun h => (h _ hover.1).1 ⟨rfl, hover.2⟩
        · rw [if_neg hover, answers_ofDecoded, decodeData_ne_aborted htype]
          constructor
          · intro h t ht
            refine ⟨?_, h t ht⟩
            rintro ⟨rfl, hlt⟩
            exact hover ⟨ht, hlt⟩
          · exact fun h t ht => (h t ht).2

end Bodies

/-- **Which bytes of a peer are answered.** A request meta, a response meta and a body are
answered, with a result or with `false`, exactly when the meta holds what its decoder reads
and the body is answerable; on any other bytes an assertion of the buffer or of the codec
fails, the table is indexed beyond its end, or the library writes beyond its room. -/
theorem hostile_input_answered_iff {M D : Type} (lib : Libraries M D)
    (snappyLength : List UInt8 → ℕ) (requestMeta responseMeta : List UInt8) (d : D)
    (type : UInt8) (uncompressedSize : ℕ) (data : List UInt8) (compressBuffer : Option ℕ) :
    ((∃ o, decodeRequestMeta requestMeta = .returns o) ↔ RequestMetaWhole requestMeta) ∧
    ((∃ m, decodeResponseMeta responseMeta = .returns m) ↔ ResponseMetaWhole responseMeta) ∧
    ((∃ o, decodeBody lib snappyLength d type uncompressedSize data compressBuffer =
      .answers o) ↔ Answerable lib snappyLength type uncompressedSize data compressBuffer) :=
  ⟨answers_decodeRequestMeta requestMeta, answers_decodeResponseMeta responseMeta,
    answers_decodeBody d type uncompressedSize data compressBuffer⟩

/-- A header of one byte fails the first assertion of either decoder; a type byte of 36
indexes the table behind its last entry; a body that restores to another size than the
announced one fails the assertion on the size. -/
theorem hostile_input_not_answered :
    decodeRequestMeta [0x19] = .aborts ∧ decodeResponseMeta [0] = .aborts ∧
    decodeBody storedLibrary List.length () 36 1 [0x10, 65] (some 1024) = .indexOutOfRange ∧
    decodeBody storedLibrary List.length () 2 2 [0x10, 65] (some 1024) = .aborts := by
  decide

end ArchNet.Hostile

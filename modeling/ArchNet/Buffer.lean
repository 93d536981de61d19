import ArchNet.Bytes
import Mathlib.Data.Int.Notation
import Mathlib.Logic.Function.Basic

/-!
# The Byte Buffer Refines a Byte Queue

`arch_net::Buffer` keeps its unread bytes between `read_index_` and `write_index_` of one
heap block, with room in front of them for prepending and room behind them for appending.
Growing reallocates, or compacts in place; draining resets the indices; `Shrink` and `Swap`
exchange the block and the prepend reserve with another instance's.

This module models the class operation by operation, every assertion included, over a family
of named instances, and proves that the family refines a family of byte queues.

## Conventions

* `size_t` expressions that add are taken modulo `2 ^ 64` (`sizeT`); the differences of the
  source stand behind assertions that keep them from wrapping, and are written as such.
* An operation is a computation in `Except Assertion`: a failed `assert` ends it with its
  name. The assertions on the caller (`Prepend`, `UnwriteBytes`, `WriteBytes`, the typed
  reads, `ReadByte`) are told apart from the internal ones only by what the theorems assume.
* A block fresh from `new char[n]` holds arbitrary bytes; they are an argument (`junk`) of
  the operations that may allocate. Data arguments do not alias the block, as the
  `restrict` comments of the source ask.
* Integers travel as their object representation on a little-endian host.

## Main results

* `Buffer.WF.step`: **one operation** within its preconditions passes every assertion,
  keeps the representation invariant, and acts on the unread bytes as on a queue.
* `Buffer.buffers_refine_queues`: so does **every sequence of operations** on every family of
  instances, constructors and swaps included.
-/

open Bytes

namespace ArchNet

/-- The value of a `size_t` expression. -/
def sizeT (n : ℕ) : ℕ := n % 2 ^ 64

theorem sizeT_eq {n : ℕ} (h : n < 2 ^ 64) : sizeT n = n := Nat.mod_eq_of_lt h

/-! ### Typed values -/

/-- The integer types that the class appends and reads. -/
inductive IntType
  | int64
  | int32
  | int16
  | int8
  | uint32
  | uint16
  | uint8
  deriving DecidableEq, Repr

namespace IntType

/-- `sizeof` the type. -/
def size : IntType → ℕ
  | int64 => 8
  | int32 => 4
  | int16 => 2
  | int8 => 1
  | uint32 => 4
  | uint16 => 2
  | uint8 => 1

/-- Whether the type is signed. -/
def signed : IntType → Bool
  | int64 | int32 | int16 | int8 => true
  | uint32 | uint16 | uint8 => false

/-- The least value of the type. -/
def min (t : IntType) : ℤ := if t.signed then -2 ^ (8 * t.size - 1) else 0

/-- The bound of the type's values. -/
def bound (t : IntType) : ℤ := if t.signed then 2 ^ (8 * t.size - 1) else 2 ^ (8 * t.size)

/-- The **values** of the type. -/
def Value (t : IntType) : Type := { x : ℤ // t.min ≤ x ∧ x < t.bound }

/-- The bit pattern of a value, as an unsigned number. -/
def pattern (t : IntType) (x : ℤ) : ℕ := (x % 2 ^ (8 * t.size)).toNat

/-- The value with the given bit pattern. -/
def ofPattern (t : IntType) (n : ℕ) : ℤ :=
  if t.signed ∧ 2 ^ (8 * t.size - 1) ≤ n then (n : ℤ) - 2 ^ (8 * t.size) else n

/-- The pattern keeps the value. -/
theorem ofPattern_pattern (t : IntType) (x : t.Value) : t.ofPattern (t.pattern x.1) = x.1 := by
  obtain ⟨x, hlo, hhi⟩ := x
  rw [ofPattern]
  cases t <;> simp [min, bound, pattern, signed, size] at hlo hhi ⊢ <;>
    omega

/-- A pattern fits the type's bytes. -/
theorem pattern_mod (t : IntType) (x : ℤ) : t.pattern x % 256 ^ t.size = t.pattern x := by
  cases t <;> simp only [pattern, size] <;> omega

/-- The conversion to and from network order; single bytes are not converted. -/
def hton (t : IntType) (n : ℕ) : ℕ :=
  match t with
  | int8 | uint8 => n
  | int64 | int32 | int16 | uint32 | uint16 => byteSwap t.size n

/-- A value as the class writes it: the object representation of its network order. -/
def toBytes (t : IntType) (x : ℤ) : List UInt8 := hostBytes t.size (t.hton (t.pattern x))

/-- The value that the class reads from the bytes it has copied into an object. -/
def ofBytes (t : IntType) (l : List UInt8) : ℤ := t.ofPattern (t.hton (hostVal l))

/-- A value is written **big-endian**. -/
theorem toBytes_eq (t : IntType) (x : ℤ) : t.toBytes x = beBytes t.size (t.pattern x) := by
  cases t with
  | int8 => rfl
  | uint8 => rfl
  | _ => exact hostBytes_byteSwap _ _

/-- A value is read **big-endian**. -/
theorem ofBytes_eq (t : IntType) {l : List UInt8} (h : l.length = t.size) :
    t.ofBytes l = t.ofPattern (beVal l) := by
  have hswap := byteSwap_hostVal l
  rw [h] at hswap
  cases t with
  | int8 | uint8 =>
      obtain ⟨b, rfl⟩ := List.length_eq_one_iff.mp h
      rfl
  | _ => exact congrArg _ hswap

@[simp] theorem length_toBytes (t : IntType) (x : ℤ) : (t.toBytes x).length = t.size := by
  rw [toBytes_eq, length_beBytes]

/-- **A typed read returns the value that was appended.** -/
theorem ofBytes_toBytes (t : IntType) (x : t.Value) : t.ofBytes (t.toBytes x.1) = x.1 := by
  rw [ofBytes_eq t (length_toBytes t x.1), toBytes_eq, beVal_beBytes, pattern_mod,
    ofPattern_pattern]

end IntType

/-! ### The class -/

/-- The assertions of the class. -/
inductive Assertion
  | constructor
  | length
  | writableBytes
  | ensureWritableBytes
  | write
  | growReserve
  | growReadable
  | growWritable
  | prepend
  | unwriteBytes
  | writeBytes
  | peek
  | readByte
  | unreadBytes
  deriving DecidableEq, Repr

/-- `assert(p)`. -/
def check (a : Assertion) (p : Prop) [Decidable p] : Except Assertion Unit :=
  if p then .ok () else .error a

theorem check_ok {a : Assertion} {p : Prop} [Decidable p] (h : p) : check a p = .ok () := if_pos h

/-- A computation that has passed its first step goes on with the next. -/
theorem ok_bind {α β : Type} (x : α) (f : α → Except Assertion β) : (Except.ok x >>= f) = f x := rfl

/-- The fields of a `Buffer`; `buffer` is the heap block. -/
structure Buffer where
  buffer : List UInt8
  capacity : ℕ
  readIndex : ℕ
  writeIndex : ℕ
  reservedPrependSize : ℕ
  deriving DecidableEq, Repr

/-- `new char[n]`, with the bytes that happen to lie there. -/
def newChars (junk : ℕ → UInt8) (n : ℕ) : List UInt8 := (List.range n).map junk

@[simp] theorem length_newChars (junk : ℕ → UInt8) (n : ℕ) : (newChars junk n).length = n := by
  simp [newChars]

/-- `kCheapPrependSize`. -/
def kCheapPrependSize : ℕ := 8

namespace Buffer

/-- `length()`. -/
def length (b : Buffer) : Except Assertion ℕ := do
  check .length (b.readIndex ≤ b.writeIndex)
  return b.writeIndex - b.readIndex

/-- `WritableBytes()`. -/
def writableBytes (b : Buffer) : Except Assertion ℕ := do
  check .writableBytes (b.writeIndex ≤ b.capacity)
  return b.capacity - b.writeIndex

/-- `PrependableBytes()`. -/
def prependableBytes (b : Buffer) : ℕ := b.readIndex

/-- `Buffer(initial_size, reserved_prepend_size)`. -/
def construct (initialSize reservedPrependSize : ℕ) (junk : ℕ → UInt8) :
    Except Assertion Buffer := do
  let capacity := sizeT (reservedPrependSize + initialSize)
  let b : Buffer :=
    ⟨newChars junk capacity, capacity, reservedPrependSize, reservedPrependSize,
      reservedPrependSize⟩
  let length ← b.length
  check .constructor (length = 0)
  let writable ← b.writableBytes
  check .constructor (writable = initialSize)
  check .constructor (b.prependableBytes = reservedPrependSize)
  return b

/-- `Truncate(n)`. -/
def truncate (b : Buffer) (n : ℕ) : Buffer :=
  if n = 0 then
    { b with readIndex := b.reservedPrependSize, writeIndex := b.reservedPrependSize }
  else if sizeT (b.readIndex + n) < b.writeIndex then
    { b with writeIndex := sizeT (b.readIndex + n) }
  else b

/-- `Reset()`. -/
def reset (b : Buffer) : Buffer := b.truncate 0

/-- `Skip(len)`, and `Retrieve(len)`, which calls it. -/
def skip (b : Buffer) (len : ℕ) : Except Assertion Buffer := do
  let length ← b.length
  return if len < length then { b with readIndex := sizeT (b.readIndex + len) } else b.reset

/-- `grow(len)`: reallocation, or compaction in place. -/
def grow (b : Buffer) (len : ℕ) (junk : ℕ → UInt8) : Except Assertion Buffer := do
  let writable ← b.writableBytes
  if sizeT (writable + b.prependableBytes) < sizeT (len + b.reservedPrependSize) then
    let n := sizeT (sizeT (b.capacity * 2) + len)
    let m ← b.length
    return { b with
      buffer := memcpy (newChars junk n) b.reservedPrependSize (span b.buffer b.readIndex m)
      writeIndex := sizeT (m + b.reservedPrependSize)
      readIndex := b.reservedPrependSize
      capacity := n }
  else
    check .growReserve (b.reservedPrependSize < b.readIndex)
    let readable ← b.length
    let b' : Buffer := { b with
      buffer := memcpy b.buffer b.reservedPrependSize (span b.buffer b.readIndex readable)
      readIndex := b.reservedPrependSize
      writeIndex := sizeT (b.reservedPrependSize + readable) }
    let length ← b'.length
    check .growReadable (readable = length)
    let writable ← b'.writableBytes
    check .growWritable (len ≤ writable)
    return b'

/-- `Reserve(len)`. -/
def reserve (b : Buffer) (len : ℕ) (junk : ℕ → UInt8) : Except Assertion Buffer :=
  if sizeT (len + b.reservedPrependSize) ≤ b.capacity then
    return b
  else
    b.grow (sizeT (len + b.reservedPrependSize)) junk

/-- `EnsureWritableBytes(len)`. -/
def ensureWritableBytes (b : Buffer) (len : ℕ) (junk : ℕ → UInt8) :
    Except Assertion Buffer := do
  let writable ← b.writableBytes
  let b ← if writable < len then b.grow len junk else pure b
  let writable ← b.writableBytes
  check .ensureWritableBytes (len ≤ writable)
  return b

/-- `Write(d, len)`, and the `Append` overloads and `operator<<`, which call it. -/
def write (b : Buffer) (d : List UInt8) (junk : ℕ → UInt8) : Except Assertion Buffer := do
  let b ← b.ensureWritableBytes d.length junk
  let buffer := memcpy b.buffer b.writeIndex d
  check .write (sizeT (b.writeIndex + d.length) ≤ b.capacity)
  return { b with buffer, writeIndex := sizeT (b.writeIndex + d.length) }

/-- `AppendInt64` … `AppendUInt8`: the value in network order. -/
def appendInt (b : Buffer) (t : IntType) (x : ℤ) (junk : ℕ → UInt8) : Except Assertion Buffer :=
  b.write (t.toBytes x) junk

/-- `Prepend(d, len)`. -/
def prepend (b : Buffer) (d : List UInt8) : Except Assertion Buffer := do
  check .prepend (d.length ≤ b.prependableBytes)
  let readIndex := b.readIndex - d.length
  return { b with readIndex, buffer := memcpy b.buffer readIndex d }

/-- `PrependInt64` … `PrependInt8`: the value in network order. -/
def prependInt (b : Buffer) (t : IntType) (x : ℤ) : Except Assertion Buffer :=
  b.prepend (t.toBytes x)

/-- `UnwriteBytes(n)`. -/
def unwriteBytes (b : Buffer) (n : ℕ) : Except Assertion Buffer := do
  let length ← b.length
  check .unwriteBytes (n ≤ length)
  return { b with writeIndex := b.writeIndex - n }

/-- `WriteBytes(n)`. -/
def writeBytes (b : Buffer) (n : ℕ) : Except Assertion Buffer := do
  let writable ← b.writableBytes
  check .writeBytes (n ≤ writable)
  return { b with writeIndex := sizeT (b.writeIndex + n) }

/-- What a caller stores through the pointer `WriteBegin()`. -/
def fill (b : Buffer) (d : List UInt8) : Buffer :=
  { b with buffer := memcpy b.buffer b.writeIndex d }

/-- `ToText()`. -/
def toText (b : Buffer) (junk : ℕ → UInt8) : Except Assertion Buffer := do
  let b ← b.appendInt .int8 0 junk
  b.unwriteBytes 1

/-- `PeekInt64` … `PeekUInt8`. -/
def peekInt (b : Buffer) (t : IntType) : Except Assertion ℤ := do
  let length ← b.length
  check .peek (t.size ≤ length)
  return t.ofBytes (span b.buffer b.readIndex t.size)

/-- `ReadInt64` … `ReadUInt8`. -/
def readInt (b : Buffer) (t : IntType) : Except Assertion (Buffer × ℤ) := do
  let result ← b.peekInt t
  let b ← b.skip t.size
  return (b, result)

/-- `NextAll()`. -/
def nextAll (b : Buffer) : Except Assertion (Buffer × List UInt8) := do
  let length ← b.length
  return (b.reset, span b.buffer b.readIndex length)

/-- `Next(len)`. -/
def next (b : Buffer) (len : ℕ) : Except Assertion (Buffer × List UInt8) := do
  let length ← b.length
  if len < length then
    return ({ b with readIndex := sizeT (b.readIndex + len) }, span b.buffer b.readIndex len)
  else
    b.nextAll

/-- `ReadByte()`. -/
def readByte (b : Buffer) : Except Assertion (Buffer × List UInt8) := do
  let length ← b.length
  check .readByte (1 ≤ length)
  if length = 0 then
    return (b, [0])
  else
    return ({ b with readIndex := sizeT (b.readIndex + 1) }, span b.buffer b.readIndex 1)

/-- `UnreadBytes(n)`. -/
def unreadBytes (b : Buffer) (n : ℕ) : Except Assertion Buffer := do
  check .unreadBytes (n < b.readIndex)
  return { b with readIndex := b.readIndex - n }

/-- `Shrink(reserve)`: the unread bytes move to a new instance with the default reserve,
and the two are swapped. -/
def shrink (b : Buffer) (reserve : ℕ) (junk : ℕ → UInt8) : Except Assertion Buffer := do
  let length ← b.length
  let other ← construct (sizeT (length + reserve)) kCheapPrependSize junk
  let length ← b.length
  other.write (span b.buffer b.readIndex length) junk

/-! ### The representation invariant -/

/-- The **representation invariant**: the indices are in order and inside the block, and the
prepend reserve fits it. -/
structure WF (b : Buffer) : Prop where
  read_le : b.readIndex ≤ b.writeIndex
  write_le : b.writeIndex ≤ b.capacity
  reserved_le : b.reservedPrependSize ≤ b.capacity
  block : b.buffer.length = b.capacity
  sized : b.capacity < 2 ^ 64

/-- The **unread bytes**. -/
def unread (b : Buffer) : List UInt8 := span b.buffer b.readIndex (b.writeIndex - b.readIndex)

/-- The computation passes its assertions and ends well-formed, with the given unread
bytes. -/
def Yields (x : Except Assertion Buffer) (q : List UInt8) : Prop :=
  ∃ b, x = .ok b ∧ b.WF ∧ b.unread = q

variable {b : Buffer} {junk : ℕ → UInt8}

theorem WF.length_eq (h : b.WF) : b.length = .ok (b.writeIndex - b.readIndex) := by
  rw [length, check_ok h.read_le]
  rfl

theorem WF.writableBytes_eq (h : b.WF) :
    b.writableBytes = .ok (b.capacity - b.writeIndex) := by
  rw [writableBytes, check_ok h.write_le]
  rfl

theorem WF.length_unread (h : b.WF) : b.unread.length = b.writeIndex - b.readIndex := by
  have h₁ := h.read_le
  have h₂ := h.write_le
  have h₃ := h.block
  exact length_span (by omega)

/-- A reset empties the queue. -/
theorem WF.reset (h : b.WF) : b.reset.WF ∧ b.reset.unread = [] := by
  refine ⟨⟨le_refl _, h.reserved_le, h.reserved_le, h.block, h.sized⟩, ?_⟩
  simp [Buffer.reset, truncate, unread, span]

/-- **Construction** gives a well-formed empty buffer. -/
theorem construct_yields {initialSize reserved : ℕ} (h : reserved + initialSize < 2 ^ 64)
    (junk : ℕ → UInt8) :
    ∃ b, construct initialSize reserved junk = .ok b ∧ b.WF ∧ b.unread = [] ∧
      b.capacity = reserved + initialSize ∧ b.writeIndex = reserved := by
  have hcap := sizeT_eq h
  let b : Buffer :=
    ⟨newChars junk (reserved + initialSize), reserved + initialSize, reserved, reserved, reserved⟩
  have hwf : b.WF :=
    ⟨le_refl _, Nat.le_add_right _ _, Nat.le_add_right _ _, length_newChars _ _, h⟩
  refine ⟨b, ?_, hwf, by simp [b, unread, span], rfl, rfl⟩
  have hprep : b.prependableBytes = reserved := rfl
  have hwritable : b.capacity - b.writeIndex = initialSize := Nat.add_sub_cancel_left ..
  have hlength : b.writeIndex - b.readIndex = 0 := Nat.sub_self _
  rw [construct, hcap]
  change (do
    let length ← b.length
    check .constructor (length = 0)
    let writable ← b.writableBytes
    check .constructor (writable = initialSize)
    check .constructor (b.prependableBytes = reserved)
    return b) = Except.ok b
  simp only [hwf.length_eq, hwf.writableBytes_eq, hlength, hwritable, hprep, ok_bind, check_ok]
  rfl

/-- **Reallocation** keeps the unread bytes; the new block holds the reserve, the unread bytes
and the room that was asked for. -/
theorem WF.reallocate (h : b.WF) {len : ℕ} (hsized : b.capacity * 2 + len < 2 ^ 64)
    (junk : ℕ → UInt8) :
    let n := b.capacity * 2 + len
    let b' : Buffer := { b with
      buffer := memcpy (newChars junk n) b.reservedPrependSize b.unread
      writeIndex := b.writeIndex - b.readIndex + b.reservedPrependSize
      readIndex := b.reservedPrependSize
      capacity := n }
    b'.WF ∧ b'.unread = b.unread ∧ len ≤ b'.capacity - b'.writeIndex := by
  intro n b'
  have hlen := h.length_unread
  obtain ⟨hread, hwrite, hres, hblock, -⟩ := h
  have hn : n = b.capacity * 2 + len := rfl
  have hfit : b.reservedPrependSize + b.unread.length ≤ (newChars junk n).length := by
    rw [length_newChars]
    omega
  refine ⟨⟨?_, ?_, ?_, ?_, hsized⟩, ?_, ?_⟩
  · exact Nat.le_add_left _ _
  · change b.writeIndex - b.readIndex + b.reservedPrependSize ≤ n
    omega
  · change b.reservedPrependSize ≤ n
    omega
  · exact (length_memcpy hfit).trans (length_newChars _ _)
  · change span _ _ (b.writeIndex - b.readIndex + b.reservedPrependSize - b.reservedPrependSize) = _
    rw [Nat.add_sub_cancel, ← hlen]
    exact span_memcpy_self (by omega)
  · change len ≤ n - (b.writeIndex - b.readIndex + b.reservedPrependSize)
    omega

/-- **Compaction** keeps the unread bytes; the room behind them is what was free on both
sides, less the reserve. -/
theorem WF.compact (h : b.WF) (hres : b.reservedPrependSize ≤ b.readIndex) :
    let b' : Buffer := { b with
      buffer := memcpy b.buffer b.reservedPrependSize b.unread
      readIndex := b.reservedPrependSize
      writeIndex := b.reservedPrependSize + (b.writeIndex - b.readIndex) }
    b'.WF ∧ b'.unread = b.unread := by
  intro b'
  have hlen := h.length_unread
  obtain ⟨hread, hwrite, hcap, hblock, hsized⟩ := h
  refine ⟨⟨?_, ?_, hcap, ?_, hsized⟩, ?_⟩
  · exact Nat.le_add_right _ _
  · change b.reservedPrependSize + (b.writeIndex - b.readIndex) ≤ b.capacity
    omega
  · exact (length_memcpy (by omega)).trans hblock
  · change span _ _
      (b.reservedPrependSize + (b.writeIndex - b.readIndex) - b.reservedPrependSize) = _
    rw [Nat.add_sub_cancel_left, ← hlen]
    exact span_memcpy_self (by omega)

/-- `grow` reallocates when what is free on both sides does not suffice. -/
theorem WF.grow_of_lt (h : b.WF) {len : ℕ}
    (hshort : b.capacity - b.writeIndex + b.readIndex < len + b.reservedPrependSize)
    (hlen : len + b.reservedPrependSize < 2 ^ 64) (hsized : b.capacity * 2 + len < 2 ^ 64)
    (junk : ℕ → UInt8) :
    b.grow len junk = .ok { b with
      buffer := memcpy (newChars junk (b.capacity * 2 + len)) b.reservedPrependSize b.unread
      writeIndex := b.writeIndex - b.readIndex + b.reservedPrependSize
      readIndex := b.reservedPrependSize
      capacity := b.capacity * 2 + len } := by
  have hread := h.read_le
  have hwrite := h.write_le
  have hres := h.reserved_le
  rw [Buffer.grow, h.writableBytes_eq, ok_bind, prependableBytes, h.length_eq,
    sizeT_eq (n := b.capacity - b.writeIndex + b.readIndex) (by omega), sizeT_eq hlen,
    if_pos hshort, ok_bind, sizeT_eq (n := b.capacity * 2) (by omega), sizeT_eq hsized,
    sizeT_eq (n := b.writeIndex - b.readIndex + _) (by omega)]
  rfl

/-- **Growing** keeps the unread bytes and makes the room that was asked for; it is called
only when the room behind the unread bytes does not suffice. -/
theorem WF.grow (h : b.WF) {len : ℕ} (hsized : b.capacity * 2 + len < 2 ^ 64)
    (hroom : b.capacity - b.writeIndex < len) (junk : ℕ → UInt8) :
    ∃ b', b.grow len junk = .ok b' ∧ b'.WF ∧ b'.unread = b.unread ∧
      len ≤ b'.capacity - b'.writeIndex := by
  have hread := h.read_le
  have hwrite := h.write_le
  have hres := h.reserved_le
  by_cases hfits : b.capacity - b.writeIndex + b.readIndex < len + b.reservedPrependSize
  · obtain ⟨hwf, hun, hwide⟩ := h.reallocate hsized junk
    exact ⟨_, h.grow_of_lt hfits (by omega) hsized junk, hwf, hun, hwide⟩
  · -- The room behind the unread bytes is short, so what suffices must include the gap.
    have hgap : b.reservedPrependSize < b.readIndex := by omega
    obtain ⟨hwf, hun⟩ := h.compact hgap.le
    have hreadable : b.writeIndex - b.readIndex =
        b.reservedPrependSize + (b.writeIndex - b.readIndex) - b.reservedPrependSize := by omega
    have hwide : len ≤ b.capacity - (b.reservedPrependSize + (b.writeIndex - b.readIndex)) := by
      omega
    refine ⟨_, ?_, hwf, hun, hwide⟩
    rw [Buffer.grow, h.writableBytes_eq, ok_bind, prependableBytes, h.length_eq,
      sizeT_eq (n := b.capacity - b.writeIndex + b.readIndex) (by omega),
      sizeT_eq (n := len + b.reservedPrependSize) (by omega), if_neg hfits, check_ok hgap, ok_bind,
      ok_bind, sizeT_eq (n := b.reservedPrependSize + _) (by omega)]
    have hlength := hwf.length_eq
    have hwritable := hwf.writableBytes_eq
    dsimp only [unread] at hlength hwritable ⊢
    rw [hlength, ok_bind, check_ok hreadable, ok_bind, hwritable, ok_bind, check_ok hwide]
    rfl

/-- `EnsureWritableBytes` does nothing where there is room. -/
theorem WF.ensureWritableBytes_of_room (h : b.WF) {len : ℕ}
    (hroom : len ≤ b.capacity - b.writeIndex) (junk : ℕ → UInt8) :
    b.ensureWritableBytes len junk = .ok b := by
  rw [Buffer.ensureWritableBytes, h.writableBytes_eq, ok_bind, if_neg (by omega), pure_bind]
  dsimp only
  rw [h.writableBytes_eq, ok_bind, check_ok hroom]
  rfl

/-- `EnsureWritableBytes` grows where there is no room. -/
theorem WF.ensureWritableBytes_of_grow (h : b.WF) {len : ℕ} {b' : Buffer}
    (hroom : b.capacity - b.writeIndex < len) (hgrow : b.grow len junk = .ok b') (hwf : b'.WF)
    (hwide : len ≤ b'.capacity - b'.writeIndex) : b.ensureWritableBytes len junk = .ok b' := by
  rw [Buffer.ensureWritableBytes, h.writableBytes_eq, ok_bind, if_pos hroom, hgrow, ok_bind]
  dsimp only
  rw [hwf.writableBytes_eq, ok_bind, check_ok hwide]
  rfl

/-- `EnsureWritableBytes` keeps the unread bytes and makes room. -/
theorem WF.ensureWritableBytes (h : b.WF) {len : ℕ} (hsized : b.capacity * 2 + len < 2 ^ 64)
    (junk : ℕ → UInt8) :
    ∃ b', b.ensureWritableBytes len junk = .ok b' ∧ b'.WF ∧ b'.unread = b.unread ∧
      len ≤ b'.capacity - b'.writeIndex := by
  rcases Nat.lt_or_ge (b.capacity - b.writeIndex) len with hroom | hwide
  · obtain ⟨b', hgrow, hwf, hun, hwide⟩ := h.grow hsized hroom junk
    exact ⟨b', h.ensureWritableBytes_of_grow hroom hgrow hwf hwide, hwf, hun, hwide⟩
  · exact ⟨b, h.ensureWritableBytes_of_room hwide junk, h, rfl, hwide⟩

/-- **What is stored at the write index is appended** once the index moves over it. -/
theorem WF.extend (h : b.WF) {d : List UInt8} (hroom : d.length ≤ b.capacity - b.writeIndex) :
    let b' : Buffer := { b with
      buffer := memcpy b.buffer b.writeIndex d
      writeIndex := b.writeIndex + d.length }
    b'.WF ∧ b'.unread = b.unread ++ d := by
  intro b'
  obtain ⟨hread, hwrite, hcap, hblock, hsized⟩ := h
  refine ⟨⟨?_, ?_, hcap, ?_, hsized⟩, ?_⟩
  · exact hread.trans (Nat.le_add_right _ _)
  · change b.writeIndex + d.length ≤ b.capacity
    omega
  · exact (length_memcpy (by omega)).trans hblock
  · have hold : span (memcpy b.buffer b.writeIndex d) b.readIndex (b.writeIndex - b.readIndex) =
        b.unread := span_memcpy_before (by omega) (by omega)
    have hnew : span (memcpy b.buffer b.writeIndex d) b.writeIndex d.length = d :=
      span_memcpy_self (by omega)
    have hsplit := span_append (memcpy b.buffer b.writeIndex d) b.readIndex
      (b.writeIndex - b.readIndex) d.length
    rw [hold, Nat.add_sub_cancel' hread, hnew] at hsplit
    rw [hsplit]
    change span _ _ (b.writeIndex + d.length - b.readIndex) = _
    congr 1
    omega

/-- `Write` stores at the write index once there is room. -/
theorem write_eq_of_ensure {b' : Buffer} {d : List UInt8}
    (hensure : b.ensureWritableBytes d.length junk = .ok b') (hwf : b'.WF)
    (hroom : d.length ≤ b'.capacity - b'.writeIndex) :
    b.write d junk = .ok { b' with
      buffer := memcpy b'.buffer b'.writeIndex d
      writeIndex := b'.writeIndex + d.length } := by
  have hfits : b'.writeIndex + d.length ≤ b'.capacity := by
    have := hwf.write_le
    omega
  rw [Buffer.write, hensure, ok_bind]
  dsimp only
  rw [sizeT_eq (hfits.trans_lt hwf.sized), check_ok hfits]
  rfl

/-- So it appends to the unread bytes. -/
theorem WF.write_of_ensure {b' : Buffer} {d : List UInt8}
    (hensure : b.ensureWritableBytes d.length junk = .ok b') (hwf : b'.WF)
    (hun : b'.unread = b.unread) (hroom : d.length ≤ b'.capacity - b'.writeIndex) :
    Yields (b.write d junk) (b.unread ++ d) := by
  obtain ⟨hwf', hun'⟩ := hwf.extend hroom
  exact ⟨_, write_eq_of_ensure hensure hwf hroom, hwf', hun'.trans (by rw [hun])⟩

/-- **`Write` appends**, reallocating or compacting as needed. -/
theorem WF.write (h : b.WF) {d : List UInt8} (hcap : b.capacity < 2 ^ 62)
    (hlen : d.length < 2 ^ 62) (junk : ℕ → UInt8) :
    Yields (b.write d junk) (b.unread ++ d) := by
  have hsized : b.capacity * 2 + d.length < 2 ^ 64 := by omega
  obtain ⟨b', hensure, hwf, hun, hroom⟩ := h.ensureWritableBytes hsized junk
  exact write_of_ensure hensure hwf hun hroom

/-- **`Prepend` puts bytes in front** of the unread ones. -/
theorem WF.prepend (h : b.WF) {d : List UInt8} (hroom : d.length ≤ b.readIndex) :
    Yields (b.prepend d) (d ++ b.unread) := by
  obtain ⟨hread, hwrite, hcap, hblock, hsized⟩ := h
  refine ⟨⟨memcpy b.buffer (b.readIndex - d.length) d, b.capacity, b.readIndex - d.length,
    b.writeIndex, b.reservedPrependSize⟩, ?_, ⟨?_, hwrite, hcap, ?_, hsized⟩, ?_⟩
  · rw [Buffer.prepend, prependableBytes, check_ok hroom]
    rfl
  · change b.readIndex - d.length ≤ b.writeIndex
    omega
  · exact (length_memcpy (by omega)).trans hblock
  · have hnew : span (memcpy b.buffer (b.readIndex - d.length) d) (b.readIndex - d.length)
        d.length = d := span_memcpy_self (by omega)
    have hold : span (memcpy b.buffer (b.readIndex - d.length) d) b.readIndex
        (b.writeIndex - b.readIndex) = b.unread := span_memcpy_behind _ (by omega) (by omega)
    have hsplit := span_append (memcpy b.buffer (b.readIndex - d.length) d)
      (b.readIndex - d.length) d.length (b.writeIndex - b.readIndex)
    rw [hnew, Nat.sub_add_cancel hroom, hold] at hsplit
    rw [hsplit]
    change span _ _ (b.writeIndex - (b.readIndex - d.length)) = _
    congr 1
    omega

/-- `Reserve` keeps the unread bytes. -/
theorem WF.reserve (h : b.WF) {len : ℕ} (hcap : b.capacity < 2 ^ 62) (hlen : len < 2 ^ 62)
    (junk : ℕ → UInt8) : Yields (b.reserve len junk) b.unread := by
  have hres := h.reserved_le
  have hsize : len + b.reservedPrependSize < 2 ^ 63 := by omega
  rw [Buffer.reserve, sizeT_eq (hsize.trans (by decide))]
  split
  · exact ⟨b, rfl, h, rfl⟩
  · rename_i hshort
    have hsized : b.capacity * 2 + (len + b.reservedPrependSize) < 2 ^ 64 := by omega
    obtain ⟨b', hgrow, hwf, hun, -⟩ := h.grow hsized (by omega) junk
    exact ⟨b', hgrow, hwf, hun⟩

/-- Moving the read index forward **drops bytes from the front**. -/
theorem WF.advance (h : b.WF) {n : ℕ} (hn : n ≤ b.writeIndex - b.readIndex) :
    let b' : Buffer := { b with readIndex := b.readIndex + n }
    b'.WF ∧ b'.unread = b.unread.drop n := by
  intro b'
  obtain ⟨hread, hwrite, hcap, hblock, hsized⟩ := h
  refine ⟨⟨?_, hwrite, hcap, hblock, hsized⟩, ?_⟩
  · change b.readIndex + n ≤ b.writeIndex
    omega
  · rw [unread, unread, drop_span]
    change span _ _ (b.writeIndex - (b.readIndex + n)) = _
    congr 1
    omega

/-- The position after `n` unread bytes does not wrap. -/
theorem WF.sizeT_advance (h : b.WF) {n : ℕ} (hn : n ≤ b.writeIndex - b.readIndex) :
    sizeT (b.readIndex + n) = b.readIndex + n := by
  obtain ⟨hread, hwrite, -, -, hsized⟩ := h
  exact sizeT_eq (by omega)

/-- **`Skip` drops from the front**, everything when there is no more than that. -/
theorem WF.skip (h : b.WF) (len : ℕ) : Yields (b.skip len) (b.unread.drop len) := by
  have hlen := h.length_unread
  rw [Buffer.skip, h.length_eq, ok_bind]
  by_cases hshort : len < b.writeIndex - b.readIndex
  · obtain ⟨hwf, hun⟩ := h.advance hshort.le
    refine ⟨_, ?_, hwf, hun⟩
    rw [if_pos hshort, h.sizeT_advance hshort.le]
    rfl
  · obtain ⟨hwf, hun⟩ := h.reset
    refine ⟨_, ?_, hwf, ?_⟩
    · rw [if_neg hshort]
      rfl
    · rw [hun, List.drop_of_length_le (by omega)]

/-- Moving the write index back **drops bytes from the back**. -/
theorem WF.retract (h : b.WF) {n : ℕ} (hn : n ≤ b.writeIndex - b.readIndex) :
    let b' : Buffer := { b with writeIndex := b.readIndex + n }
    b'.WF ∧ b'.unread = b.unread.take n := by
  intro b'
  obtain ⟨hread, hwrite, hcap, hblock, hsized⟩ := h
  refine ⟨⟨Nat.le_add_right _ _, ?_, hcap, hblock, hsized⟩, ?_⟩
  · change b.readIndex + n ≤ b.capacity
    omega
  · rw [unread, unread, take_span, Nat.min_eq_left hn]
    change span _ _ (b.readIndex + n - b.readIndex) = _
    rw [Nat.add_sub_cancel_left]

/-- `Truncate` keeps the first bytes, where its sum does not wrap. -/
theorem WF.truncate_of_lt (h : b.WF) {n : ℕ} (hn : b.readIndex + n < 2 ^ 64) :
    (b.truncate n).WF ∧ (b.truncate n).unread = b.unread.take n := by
  have hlen := h.length_unread
  have hread := h.read_le
  rcases Nat.eq_zero_or_pos n with rfl | hpos
  · obtain ⟨hwf, hun⟩ := h.reset
    exact ⟨hwf, hun.trans List.take_zero.symm⟩
  rw [Buffer.truncate, if_neg hpos.ne', sizeT_eq hn]
  split
  · exact h.retract (by omega)
  · exact ⟨h, (List.take_of_length_le (by omega)).symm⟩

/-- `Truncate` keeps the first bytes. -/
theorem WF.truncate (h : b.WF) {n : ℕ} (hn : n < 2 ^ 62) (hcap : b.capacity < 2 ^ 62) :
    (b.truncate n).WF ∧ (b.truncate n).unread = b.unread.take n := by
  have hread := h.read_le
  have hwrite := h.write_le
  exact h.truncate_of_lt (by omega)

/-- **`UnwriteBytes` drops from the back.** -/
theorem WF.unwriteBytes (h : b.WF) {n : ℕ} (hn : n ≤ b.writeIndex - b.readIndex) :
    Yields (b.unwriteBytes n) (b.unread.take (b.unread.length - n)) := by
  have hread := h.read_le
  obtain ⟨hwf, hun⟩ := h.retract (n := b.writeIndex - b.readIndex - n) (Nat.sub_le _ _)
  refine ⟨_, ?_, hwf, hun.trans (by rw [h.length_unread])⟩
  rw [Buffer.unwriteBytes, h.length_eq, ok_bind, check_ok hn,
    show b.readIndex + (b.writeIndex - b.readIndex - n) = b.writeIndex - n by omega]
  rfl

/-- **`WriteBytes` appends** what the caller has stored at `WriteBegin()`. -/
theorem WF.writeBytes (h : b.WF) {d : List UInt8} (hd : d.length ≤ b.capacity - b.writeIndex) :
    Yields ((b.fill d).writeBytes d.length) (b.unread ++ d) := by
  obtain ⟨hwf, hun⟩ := h.extend hd
  have hwrite := h.write_le
  have hsized := h.sized
  refine ⟨_, ?_, hwf, hun⟩
  rw [Buffer.writeBytes, Buffer.writableBytes, fill, check_ok hwrite]
  change (do
    check .writeBytes (d.length ≤ b.capacity - b.writeIndex)
    return { b with
      buffer := memcpy b.buffer b.writeIndex d
      writeIndex := sizeT (b.writeIndex + d.length) }) = _
  rw [check_ok hd, sizeT_eq (n := b.writeIndex + d.length) (by omega)]
  rfl

/-- `ToText` leaves the unread bytes as they are. -/
theorem WF.toText (h : b.WF) (hcap : b.capacity < 2 ^ 62) (junk : ℕ → UInt8) :
    Yields (b.toText junk) b.unread := by
  obtain ⟨b', hwrite, hwf, hun⟩ := h.write (d := IntType.int8.toBytes 0) hcap (by decide) junk
  have hlen := hwf.length_unread
  rw [hun, List.length_append, IntType.length_toBytes, IntType.size] at hlen
  obtain ⟨b'', hunwrite, hwf', hun'⟩ := hwf.unwriteBytes (n := 1) (by omega)
  refine ⟨b'', ?_, hwf', ?_⟩
  · rw [Buffer.toText, appendInt, hwrite, ok_bind]
    exact hunwrite
  · rw [hun', hun, List.length_append, IntType.length_toBytes, IntType.size,
      Nat.add_sub_cancel, List.take_left]

/-- **A typed read** returns the value at the front and drops it. -/
theorem WF.readInt (h : b.WF) {t : IntType} (ht : t.size ≤ b.writeIndex - b.readIndex) :
    ∃ b', b.readInt t = .ok (b', t.ofBytes (b.unread.take t.size)) ∧ b'.WF ∧
      b'.unread = b.unread.drop t.size := by
  obtain ⟨b', hskip, hwf, hun⟩ := h.skip t.size
  refine ⟨b', ?_, hwf, hun⟩
  have hpeek : b.peekInt t = .ok (t.ofBytes (b.unread.take t.size)) := by
    rw [peekInt, h.length_eq, ok_bind, check_ok ht, unread, take_span, Nat.min_eq_left ht]
    rfl
  rw [Buffer.readInt, hpeek, ok_bind, hskip]
  rfl

/-- `NextAll` returns the unread bytes and drops them. -/
theorem WF.nextAll (h : b.WF) : b.nextAll = .ok (b.reset, b.unread) := by
  rw [Buffer.nextAll, h.length_eq]
  rfl

/-- **`Next`** returns the bytes that it drops from the front. -/
theorem WF.next (h : b.WF) (len : ℕ) :
    ∃ b', b.next len = .ok (b', b.unread.take len) ∧ b'.WF ∧ b'.unread = b.unread.drop len := by
  have hlen := h.length_unread
  rw [Buffer.next, h.length_eq, ok_bind]
  by_cases hshort : len < b.writeIndex - b.readIndex
  · obtain ⟨hwf, hun⟩ := h.advance hshort.le
    refine ⟨_, ?_, hwf, hun⟩
    rw [if_pos hshort, h.sizeT_advance hshort.le, unread, take_span, Nat.min_eq_left hshort.le]
    rfl
  · obtain ⟨hwf, hun⟩ := h.reset
    refine ⟨b.reset, ?_, hwf, ?_⟩
    · rw [if_neg hshort, h.nextAll, List.take_of_length_le (by omega)]
    · rw [hun, List.drop_of_length_le (by omega)]

/-- **`ReadByte`** returns the byte that it drops from the front. -/
theorem WF.readByte (h : b.WF) (hone : 1 ≤ b.writeIndex - b.readIndex) :
    ∃ b', b.readByte = .ok (b', b.unread.take 1) ∧ b'.WF ∧ b'.unread = b.unread.drop 1 := by
  obtain ⟨hwf, hun⟩ := h.advance hone
  refine ⟨_, ?_, hwf, hun⟩
  rw [Buffer.readByte, h.length_eq, ok_bind, check_ok hone, h.sizeT_advance hone, unread,
    take_span, Nat.min_eq_left hone, ok_bind, if_neg (by omega)]
  rfl

/-- **`Shrink` keeps the unread bytes** while it exchanges the block and the reserve. -/
theorem WF.shrink (h : b.WF) {reserve : ℕ} (hcap : b.capacity < 2 ^ 62)
    (hres : reserve < 2 ^ 62) (junk : ℕ → UInt8) : Yields (b.shrink reserve junk) b.unread := by
  have hlen := h.length_unread
  have hwrite := h.write_le
  have hsize : b.writeIndex - b.readIndex + reserve < 2 ^ 63 := by omega
  have hnew : kCheapPrependSize + (b.writeIndex - b.readIndex + reserve) < 2 ^ 64 := by
    rw [kCheapPrependSize]
    omega
  obtain ⟨other, hother, hwf, hun, hcapacity, hindex⟩ := construct_yields hnew junk
  have hroom : b.unread.length ≤ other.capacity - other.writeIndex := by omega
  have hyields := WF.write_of_ensure (hwf.ensureWritableBytes_of_room hroom junk) hwf rfl hroom
  rw [hun, List.nil_append] at hyields
  rw [Buffer.shrink, h.length_eq, ok_bind, sizeT_eq (hsize.trans (by decide)), hother, ok_bind]
  exact hyields

/-! ### Operations, on buffers and on queues -/

/-- What an operation returns. -/
inductive Result
  | none
  | value (x : ℤ)
  | bytes (l : List UInt8)
  deriving DecidableEq, Repr

/-- The operations of the class. -/
inductive Op
  /-- `Write`, the `Append` overloads and `operator<<`. -/
  | write (d : List UInt8)
  /-- `AppendInt64` … `AppendUInt8`. -/
  | appendInt (t : IntType) (x : t.Value)
  /-- `Prepend`. -/
  | prepend (d : List UInt8)
  /-- `PrependInt64` … `PrependInt8`. -/
  | prependInt (t : IntType) (x : t.Value)
  /-- `Skip` and `Retrieve`. -/
  | skip (len : ℕ)
  | truncate (n : ℕ)
  | reset
  | reserve (len : ℕ)
  | ensureWritableBytes (len : ℕ)
  | toText
  | unwriteBytes (n : ℕ)
  /-- `WriteBytes(d.length)`, called with the bytes `d` stored at `WriteBegin()`: the caller
  has put them there, or they lie there and storing them again changes nothing. -/
  | writeBytes (d : List UInt8)
  /-- `ReadInt64` … `ReadUInt8`. -/
  | readInt (t : IntType)
  /-- `Next`, `NextString`. -/
  | next (len : ℕ)
  /-- `NextAll`, `NextAllString`. -/
  | nextAll
  | readByte
  | shrink (reserve : ℕ)

namespace Op

/-- The size that an operation is called with. -/
def size : Op → ℕ
  | write d | prepend d | writeBytes d => d.length
  | skip n | truncate n | reserve n | ensureWritableBytes n | unwriteBytes n | next n
  | shrink n => n
  | appendInt t _ | prependInt t _ | readInt t => t.size
  | reset | toText | nextAll | readByte => 0

/-- An operation on a **byte queue**: appends at the back, prepends and drops at the front,
drops at the back; typed values are big-endian. -/
def act : Op → List UInt8 → List UInt8 × Result
  | write d, q => (q ++ d, .none)
  | appendInt t x, q => (q ++ beBytes t.size (t.pattern x.1), .none)
  | prepend d, q => (d ++ q, .none)
  | prependInt t x, q => (beBytes t.size (t.pattern x.1) ++ q, .none)
  | skip len, q => (q.drop len, .none)
  | truncate n, q => (q.take n, .none)
  | reset, _ => ([], .none)
  | reserve _, q => (q, .none)
  | ensureWritableBytes _, q => (q, .none)
  | toText, q => (q, .none)
  | unwriteBytes n, q => (q.take (q.length - n), .none)
  | writeBytes d, q => (q ++ d, .none)
  | readInt t, q => (q.drop t.size, .value (t.ofPattern (beVal (q.take t.size))))
  | next len, q => (q.drop len, .bytes (q.take len))
  | nextAll, q => ([], .bytes q)
  | readByte, q => (q.drop 1, .bytes (q.take 1))
  | shrink _, q => (q, .none)

/-- **A typed read of the queue** returns the value whose bytes are at its front. -/
theorem act_readInt (t : IntType) (x : t.Value) (q : List UInt8) :
    (readInt t).act (beBytes t.size (t.pattern x.1) ++ q) = (q, .value x.1) := by
  have hlen := length_beBytes t.size (t.pattern x.1)
  rw [act, List.drop_left' hlen, List.take_left' hlen, beVal_beBytes, IntType.pattern_mod,
    IntType.ofPattern_pattern]

end Op

/-- The **asserted preconditions** of an operation. -/
def Accepts (b : Buffer) : Op → Prop
  | .prepend d => d.length ≤ b.readIndex
  | .prependInt t _ => t.size ≤ b.readIndex
  | .unwriteBytes n => n ≤ b.writeIndex - b.readIndex
  | .writeBytes d => d.length ≤ b.capacity - b.writeIndex
  | .readInt t => t.size ≤ b.writeIndex - b.readIndex
  | .readByte => 1 ≤ b.writeIndex - b.readIndex
  | _ => True

instance (b : Buffer) : (op : Op) → Decidable (b.Accepts op)
  | .prepend d => inferInstanceAs (Decidable (d.length ≤ b.readIndex))
  | .prependInt t _ => inferInstanceAs (Decidable (t.size ≤ b.readIndex))
  | .unwriteBytes n => inferInstanceAs (Decidable (n ≤ b.writeIndex - b.readIndex))
  | .writeBytes d => inferInstanceAs (Decidable (d.length ≤ b.capacity - b.writeIndex))
  | .readInt t => inferInstanceAs (Decidable (t.size ≤ b.writeIndex - b.readIndex))
  | .readByte => inferInstanceAs (Decidable (1 ≤ b.writeIndex - b.readIndex))
  | .write _ | .appendInt _ _ | .skip _ | .truncate _ | .reset | .reserve _
  | .ensureWritableBytes _ | .toText | .next _ | .nextAll | .shrink _ => instDecidableTrue

/-- An operation on a buffer. -/
def step (b : Buffer) (op : Op) (junk : ℕ → UInt8) : Except Assertion (Buffer × Result) :=
  match op with
  | .write d => return (← b.write d junk, .none)
  | .appendInt t x => return (← b.appendInt t x.1 junk, .none)
  | .prepend d => return (← b.prepend d, .none)
  | .prependInt t x => return (← b.prependInt t x.1, .none)
  | .skip len => return (← b.skip len, .none)
  | .truncate n => return (b.truncate n, .none)
  | .reset => return (b.reset, .none)
  | .reserve len => return (← b.reserve len junk, .none)
  | .ensureWritableBytes len => return (← b.ensureWritableBytes len junk, .none)
  | .toText => return (← b.toText junk, .none)
  | .unwriteBytes n => return (← b.unwriteBytes n, .none)
  | .writeBytes d => return (← (b.fill d).writeBytes d.length, .none)
  | .readInt t => do
      let (b, x) ← b.readInt t
      return (b, .value x)
  | .next len => do
      let (b, l) ← b.next len
      return (b, .bytes l)
  | .nextAll => do
      let (b, l) ← b.nextAll
      return (b, .bytes l)
  | .readByte => do
      let (b, l) ← b.readByte
      return (b, .bytes l)
  | .shrink n => return (← b.shrink n junk, .none)

/-- A computation without a result, as a step. -/
theorem Yields.step {x : Except Assertion Buffer} {q : List UInt8} (h : Yields x q) :
    ∃ b', (do return (← x, Result.none)) = Except.ok (b', Result.none) ∧ b'.WF ∧
      b'.unread = q := by
  obtain ⟨b', rfl, hwf, hun⟩ := h
  exact ⟨b', rfl, hwf, hun⟩

/-- **One operation refines the queue**: within its preconditions and with sizes below
`2 ^ 62`, it passes every assertion, keeps the representation invariant, and acts on the
unread bytes as on a queue, result included. -/
theorem WF.step (h : b.WF) {op : Op} (hcap : b.capacity < 2 ^ 62)
    (hsize : op.size < 2 ^ 62) (hok : b.Accepts op) (junk : ℕ → UInt8) :
    ∃ b', b.step op junk = .ok (b', (op.act b.unread).2) ∧ b'.WF ∧
      b'.unread = (op.act b.unread).1 := by
  cases op with
  | write d => exact (h.write hcap hsize junk).step
  | appendInt t x =>
      have hlen : (t.toBytes x.1).length < 2 ^ 62 := by rwa [IntType.length_toBytes]
      have hwrite := h.write hcap hlen junk
      rw [IntType.toBytes_eq] at hwrite
      rw [Buffer.step, appendInt, IntType.toBytes_eq]
      exact hwrite.step
  | prepend d => exact (h.prepend hok).step
  | prependInt t x =>
      have hlen : (t.toBytes x.1).length ≤ b.readIndex := by rwa [IntType.length_toBytes]
      have hprepend := h.prepend hlen
      rw [IntType.toBytes_eq] at hprepend
      rw [Buffer.step, prependInt, IntType.toBytes_eq]
      exact hprepend.step
  | skip len => exact (h.skip len).step
  | truncate n =>
      obtain ⟨hwf, hun⟩ := h.truncate hsize hcap
      exact ⟨_, rfl, hwf, hun⟩
  | reset =>
      obtain ⟨hwf, hun⟩ := h.reset
      exact ⟨_, rfl, hwf, hun⟩
  | reserve len => exact (h.reserve hcap hsize junk).step
  | ensureWritableBytes len =>
      have hsized : b.capacity * 2 + len < 2 ^ 64 := by
        rw [Op.size] at hsize
        omega
      obtain ⟨b', hensure, hwf, hun, -⟩ := h.ensureWritableBytes hsized junk
      exact Yields.step ⟨b', hensure, hwf, hun⟩
  | toText => exact (h.toText hcap junk).step
  | unwriteBytes n => exact (h.unwriteBytes hok).step
  | writeBytes d => exact (h.writeBytes hok).step
  | readInt t =>
      obtain ⟨b', hread, hwf, hun⟩ := h.readInt hok
      have hlen : (b.unread.take t.size).length = t.size := by
        rw [List.length_take, h.length_unread]
        exact Nat.min_eq_left hok
      refine ⟨b', ?_, hwf, hun⟩
      rw [Buffer.step, hread, ok_bind, IntType.ofBytes_eq t hlen]
      rfl
  | next len =>
      obtain ⟨b', hnext, hwf, hun⟩ := h.next len
      refine ⟨b', ?_, hwf, hun⟩
      rw [Buffer.step, hnext]
      rfl
  | nextAll =>
      obtain ⟨hwf, hun⟩ := h.reset
      refine ⟨_, ?_, hwf, hun⟩
      rw [Buffer.step, h.nextAll]
      rfl
  | readByte =>
      obtain ⟨b', hread, hwf, hun⟩ := h.readByte hok
      refine ⟨b', ?_, hwf, hun⟩
      rw [Buffer.step, hread]
      rfl
  | shrink n => exact (h.shrink hcap hsize junk).step

/-! ### Families of instances -/

variable {ι : Type} [DecidableEq ι]

/-- One step of a program on a family of instances: an operation on one of them, or `Swap`
between two. -/
inductive Step (ι : Type)
  | on (i : ι) (op : Op) (junk : ℕ → UInt8)
  | swap (i j : ι)

/-- Exchange of two members of a family. -/
def exchange {α : Type} (f : ι → α) (i j : ι) : ι → α :=
  Function.update (Function.update f i (f j)) j (f i)

/-- The step on the buffers. -/
def Step.run (pool : ι → Buffer) : Step ι → Except Assertion ((ι → Buffer) × Result)
  | .on i op junk => do
      let (b, r) ← (pool i).step op junk
      return (Function.update pool i b, r)
  | .swap i j => return (exchange pool i j, .none)

/-- The step on the queues. -/
def Step.act (queues : ι → List UInt8) : Step ι → (ι → List UInt8) × Result
  | .on i op _ =>
      (Function.update queues i (op.act (queues i)).1, (op.act (queues i)).2)
  | .swap i j => (exchange queues i j, .none)

/-- The steps on the buffers, with the results of all of them. -/
def run (pool : ι → Buffer) : List (Step ι) → Except Assertion ((ι → Buffer) × List Result)
  | [] => return (pool, [])
  | s :: steps => do
      let (pool, r) ← s.run pool
      let (pool, rs) ← run pool steps
      return (pool, r :: rs)

/-- The steps on the queues, with the results of all of them. -/
def act (queues : ι → List UInt8) : List (Step ι) → (ι → List UInt8) × List Result
  | [] => (queues, [])
  | s :: steps =>
      ((act (s.act queues).1 steps).1, (s.act queues).2 :: (act (s.act queues).1 steps).2)

/-- The step meets the **preconditions**: the asserted ones, and sizes below `2 ^ 62`. -/
def Step.Allowed (pool : ι → Buffer) : Step ι → Prop
  | .on i op _ => (pool i).capacity < 2 ^ 62 ∧ op.size < 2 ^ 62 ∧ (pool i).Accepts op
  | .swap _ _ => True

instance (pool : ι → Buffer) : (s : Step ι) → Decidable (s.Allowed pool)
  | .on i op _ =>
      inferInstanceAs (Decidable (_ ∧ op.size < 2 ^ 62 ∧ (pool i).Accepts op))
  | .swap _ _ => instDecidableTrue

/-- **Every step meets the preconditions** in the state in which it is made. -/
def Respects (pool : ι → Buffer) : List (Step ι) → Prop
  | [] => True
  | s :: steps => s.Allowed pool ∧
      match s.run pool with
      | .ok (pool', _) => Respects pool' steps
      | .error _ => True

instance decidableRespects : (pool : ι → Buffer) → (steps : List (Step ι)) →
    Decidable (Respects pool steps)
  | _, [] => instDecidableTrue
  | pool, s :: steps =>
      match h : s.run pool with
      | .ok (pool', _) =>
          have := decidableRespects pool' steps
          decidable_of_iff (s.Allowed pool ∧ Respects pool' steps) (by rw [Respects, h])
      | .error _ =>
          decidable_of_iff (s.Allowed pool) (by rw [Respects, h]; exact iff_of_eq (and_true _).symm)

/-- The buffers **represent** the queues. -/
def Represents (pool : ι → Buffer) (queues : ι → List UInt8) : Prop :=
  ∀ i, (pool i).WF ∧ (pool i).unread = queues i

/-- One step of the program refines the step on the queues. -/
theorem Represents.step {pool : ι → Buffer} {queues : ι → List UInt8}
    (h : Represents pool queues) {s : Step ι} (hs : s.Allowed pool) :
    ∃ pool', s.run pool = .ok (pool', (s.act queues).2) ∧ Represents pool' (s.act queues).1 := by
  cases s with
  | on i op junk =>
      obtain ⟨hcap, hsize, hok⟩ := hs
      obtain ⟨hwf, hun⟩ := h i
      obtain ⟨b', hstep, hwf', hun'⟩ := hwf.step hcap hsize hok junk
      rw [hun] at hstep hun'
      refine ⟨Function.update pool i b', ?_, ?_⟩
      · rw [Step.run, hstep]
        rfl
      · intro k
        rcases eq_or_ne k i with rfl | hk
        · simpa only [Step.act, Function.update_self] using ⟨hwf', hun'⟩
        · simpa only [Step.act, Function.update_of_ne hk] using h k
  | swap i j =>
      refine ⟨_, rfl, ?_⟩
      intro k
      rcases eq_or_ne k j with rfl | hj
      · simpa only [Step.act, exchange, Function.update_self] using h i
      · rcases eq_or_ne k i with rfl | hi
        · simpa only [Step.act, exchange, Function.update_of_ne hj, Function.update_self] using h j
        · simpa only [Step.act, exchange, Function.update_of_ne hj, Function.update_of_ne hi]
            using h k

/-- **A whole program refines its run on the queues**, by induction on its steps. -/
theorem Represents.run {pool : ι → Buffer} {queues : ι → List UInt8}
    (h : Represents pool queues) {steps : List (Step ι)} (hsteps : Respects pool steps) :
    ∃ pool', run pool steps = .ok (pool', (act queues steps).2) ∧
      Represents pool' (act queues steps).1 := by
  induction steps generalizing pool queues with
  | nil => exact ⟨pool, rfl, h⟩
  | cons s steps ih =>
      obtain ⟨hs, hrest⟩ := hsteps
      obtain ⟨pool', hrun, hrep⟩ := h.step hs
      rw [hrun] at hrest
      obtain ⟨pool'', hrun', hrep'⟩ := ih hrep hrest
      refine ⟨pool'', ?_, hrep'⟩
      rw [Buffer.run, hrun, ok_bind]
      dsimp only
      rw [hrun']
      rfl

/-- **Buffers refine byte queues.** Instances constructed with any sizes, and driven by any
steps within their asserted preconditions, pass every assertion; their results and unread
bytes are those of the queues, and their indices stay in order and inside the block. A typed
read of a queue returns the value whose bytes were put there. -/
theorem buffers_refine_queues (sizes reserves : ι → ℕ) (junk : ι → ℕ → UInt8)
    (hsizes : ∀ i, reserves i + sizes i < 2 ^ 62) :
    ∃ pool : ι → Buffer,
      (∀ i, construct (sizes i) (reserves i) (junk i) = .ok (pool i)) ∧
      (∀ steps, Respects pool steps →
        ∃ pool', run pool steps = .ok (pool', (act (fun _ => []) steps).2) ∧
          ∀ i, (pool' i).unread = (act (fun _ => []) steps).1 i ∧
            (pool' i).readIndex ≤ (pool' i).writeIndex ∧
            (pool' i).writeIndex ≤ (pool' i).capacity) ∧
      ∀ (t : IntType) (x : t.Value) (q : List UInt8),
        (Op.readInt t).act (((Op.appendInt t x).act []).1 ++ q) = (q, .value x.1) := by
  have hnew : ∀ i, ∃ b, construct (sizes i) (reserves i) (junk i) = .ok b ∧ b.WF ∧
      b.unread = [] := by
    intro i
    obtain ⟨b, hb, hwf, hun, -⟩ :=
      construct_yields (Nat.lt_trans (hsizes i) (by decide)) (junk i)
    exact ⟨b, hb, hwf, hun⟩
  choose pool hpool hwf hun using hnew
  refine ⟨pool, hpool, ?_, Op.act_readInt⟩
  intro steps hsteps
  have hrep : Represents pool fun _ => [] := fun i => ⟨hwf i, hun i⟩
  obtain ⟨pool', hrun, hrep'⟩ := hrep.run hsteps
  exact ⟨pool', hrun, fun i => ⟨(hrep' i).2, (hrep' i).1.read_le, (hrep' i).1.write_le⟩⟩

/-- A program on two instances that reallocates, compacts, prepends, shrinks and swaps. -/
def sampleSteps : List (Step Bool) :=
  [.on false (.write [1, 2, 3]) fun _ => 0,
    .on false .readByte fun _ => 0,
    .on false (.appendInt .int8 ⟨-1, by decide⟩) fun _ => 0,
    .on false (.readInt .uint16) fun _ => 0,
    .on true (.prepend [9, 8]) fun _ => 0,
    .on true (.shrink 0) fun _ => 0,
    .swap false true,
    .on true (.readInt .int8) fun _ => 0]

/-- The sample program runs through, on an instance without any room of its own. -/
theorem sampleSteps_run :
    ∃ pool pool' : Bool → Buffer,
      construct 0 0 (fun _ => 0) = .ok (pool false) ∧
      construct 4 2 (fun _ => 0) = .ok (pool true) ∧
      run pool sampleSteps = .ok (pool', [.none, .bytes [1], .none, .value 515, .none, .none,
        .none, .value (-1)]) ∧
      (pool' false).unread = [9, 8] ∧ (pool' true).unread = [] := by
  obtain ⟨pool, hpool, hruns, -⟩ := buffers_refine_queues
    (fun i : Bool => if i then 4 else 0) (fun i => if i then 2 else 0) (fun _ _ => 0) (by decide)
  have hfalse := hpool false
  have htrue := hpool true
  have hpool' : pool = fun i =>
      if i then ⟨[0, 0, 0, 0, 0, 0], 6, 2, 2, 2⟩ else ⟨[], 0, 0, 0, 0⟩ := by
    funext i
    cases i with
    | false => exact (Except.ok.inj hfalse).symm
    | true => exact (Except.ok.inj htrue).symm
  obtain ⟨pool', hrun, hall⟩ := hruns sampleSteps (by rw [hpool']; decide +kernel)
  exact ⟨pool, pool', hfalse, htrue, hrun, (hall false).1, (hall true).1⟩

end Buffer

end ArchNet

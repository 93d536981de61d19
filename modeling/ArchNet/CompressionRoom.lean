import ArchNet.Buffer
import ArchNet.PBCodec

/-!
# The Room That a Compressor Is Given

`EncodeRPCRequest` and `EncodeRPCResponse` reset the compression buffer and make sure that it has
as many writable bytes as the input; `StreamingEncode` does so behind the four bytes of the size.
The capacity that the compressor is told is what is writable then. A compressor needs more than
the input for data that it cannot compress; how much more is its bound.

## Main results

* `WF.ensureWritableBytes_front`: what `EnsureWritableBytes` leaves writable when nothing has been
  read from the buffer.
* `ensureWritable_eq`: the codec's view of a compression buffer is that of the buffers with
  eight bytes in front.
* `room_suffices_iff`: **when the compressor has room** — when the buffer had room for its bound
  already, or was too small for the input and grew far enough.
-/

namespace ArchNet

namespace Buffer

/-- The capacity that `EncodeRPCRequest` and `EncodeRPCResponse` give to the compressor for an
input of `n` bytes. -/
def encodeRoom (b : Buffer) (n : ℕ) (junk : ℕ → UInt8) : Except Assertion ℕ := do
  let b ← b.reset.ensureWritableBytes n junk
  b.writableBytes

/-- The capacity that `StreamingEncode` gives to the compressor. -/
def streamingRoom (b : Buffer) (n : ℕ) (junk : ℕ → UInt8) : Except Assertion ℕ := do
  let b ← b.reset.appendInt .uint32 n junk
  let b ← b.ensureWritableBytes n junk
  b.writableBytes

/-- What is writable after a request for `n` bytes, where `writable` bytes out of `capacity` were
writable before: a buffer that is too small gets twice its capacity and `n` bytes more. -/
def roomFor (capacity writable n : ℕ) : ℕ :=
  if writable < n then capacity + writable + n else writable

variable {b : Buffer}

/-- **`EnsureWritableBytes` on a buffer from which nothing has been read.** -/
theorem WF.ensureWritableBytes_front (h : b.WF) (hfront : b.readIndex = b.reservedPrependSize)
    {n : ℕ} (hsized : b.capacity * 2 + n < 2 ^ 64) (junk : ℕ → UInt8) :
    ∃ b', b.ensureWritableBytes n junk = .ok b' ∧ b'.WF ∧
      b'.readIndex = b'.reservedPrependSize ∧ b'.writeIndex = b.writeIndex ∧
      b'.capacity = (if b.capacity - b.writeIndex < n then b.capacity * 2 + n else b.capacity) ∧
      n ≤ b'.capacity - b'.writeIndex := by
  have hread := h.read_le
  have hwrite := h.write_le
  rcases Nat.lt_or_ge (b.capacity - b.writeIndex) n with hroom | hwide
  · -- nothing can be gained in front, so the buffer is reallocated
    have hgrow := h.grow_of_lt (by omega) (by omega) hsized junk
    obtain ⟨hwf, -, hwide⟩ := h.reallocate hsized junk
    refine ⟨_, h.ensureWritableBytes_of_grow hroom hgrow hwf hwide, hwf, rfl, ?_, ?_, hwide⟩
    · dsimp only
      omega
    · rw [if_pos hroom]
  · exact ⟨b, h.ensureWritableBytes_of_room hwide junk, h, hfront, rfl,
      by rw [if_neg (by omega)], hwide⟩

/-- The writable bytes after it. -/
theorem WF.writableBytes_front (h : b.WF) (hfront : b.readIndex = b.reservedPrependSize)
    {n : ℕ} (hsized : b.capacity * 2 + n < 2 ^ 64) (junk : ℕ → UInt8) :
    ∃ b', b.ensureWritableBytes n junk = .ok b' ∧
      b'.writableBytes = .ok (roomFor b.capacity (b.capacity - b.writeIndex) n) := by
  have hwrite := h.write_le
  obtain ⟨b', hensure, hwf, -, hindex, hcap, -⟩ := h.ensureWritableBytes_front hfront hsized junk
  refine ⟨b', hensure, ?_⟩
  rw [hwf.writableBytes_eq, hindex, hcap, roomFor]
  split_ifs
  · congr 1
    omega
  · rfl

/-- **The room of the two encoders**, for a buffer in any state. -/
theorem WF.encodeRoom_eq (h : b.WF) (hcap : b.capacity < 2 ^ 62) {n : ℕ} (hn : n < 2 ^ 62)
    (junk : ℕ → UInt8) :
    b.encodeRoom n junk =
      .ok (roomFor b.capacity (b.capacity - b.reservedPrependSize) n) := by
  have hsized : b.reset.capacity * 2 + n < 2 ^ 64 := by
    change b.capacity * 2 + n < 2 ^ 64
    omega
  obtain ⟨b', hensure, hroom⟩ := h.reset.1.writableBytes_front rfl hsized junk
  rw [encodeRoom, hensure, ok_bind, hroom]
  rfl

/-- The capacity of a buffer once the size field of a streaming message is in it. -/
def sizedCapacity (b : Buffer) : ℕ :=
  if b.capacity - b.reservedPrependSize < 4 then b.capacity * 2 + 4 else b.capacity

/-- **The room of the streaming encoder**, for a buffer in any state. -/
theorem WF.streamingRoom_eq (h : b.WF) (hcap : b.capacity < 2 ^ 60) {n : ℕ} (hn : n < 2 ^ 62)
    (junk : ℕ → UInt8) :
    b.streamingRoom n junk =
      .ok (roomFor b.sizedCapacity (b.sizedCapacity - (b.reservedPrependSize + 4)) n) := by
  have hfour : (IntType.uint32.toBytes (n : ℤ)).length = 4 := IntType.length_toBytes ..
  have hsized : b.reset.capacity * 2 + 4 < 2 ^ 64 := by
    change b.capacity * 2 + 4 < 2 ^ 64
    omega
  obtain ⟨b₁, hensure, hwf₁, hfront₁, hindex₁, hcap₁, hwide₁⟩ :=
    h.reset.1.ensureWritableBytes_front rfl hsized junk
  have hcapacity : b₁.capacity = b.sizedCapacity := hcap₁
  have hwrite₁ : b₁.writeIndex = b.reservedPrependSize := hindex₁
  rw [← hfour] at hensure hwide₁
  -- the buffer behind the size field
  obtain ⟨hwf₂, -⟩ := hwf₁.extend hwide₁
  have hsized₂ : b.sizedCapacity * 2 + n < 2 ^ 64 := by
    rw [sizedCapacity]
    split_ifs <;> omega
  rw [← hcapacity] at hsized₂
  obtain ⟨b', hensure', hroom⟩ := hwf₂.writableBytes_front hfront₁ hsized₂ junk
  rw [streamingRoom, appendInt, write_eq_of_ensure hensure hwf₁ hwide₁, ok_bind, hensure', ok_bind,
    hroom]
  dsimp only
  rw [hcapacity, hwrite₁, hfour]

/-- The codec's view of a compression buffer: it has eight bytes in front. -/
theorem ensureWritable_eq (writable n : ℕ) :
    ensureWritable writable n = roomFor (writable + 8) writable n := by
  rw [ensureWritable, roomFor]
  split_ifs <;> omega

/-- When a request for `n` bytes makes at least `bound` bytes writable. -/
theorem le_roomFor_iff {capacity writable n bound : ℕ} (hbound : n < bound) :
    bound ≤ roomFor capacity writable n ↔
      bound ≤ writable ∨ (writable < n ∧ bound ≤ capacity + writable + n) := by
  rw [roomFor]
  split_ifs <;> omega

/-- **When the compressor has room.** Whatever the bound of the codec, the input and the state of
the buffer: the capacity that it is given reaches the bound exactly when as many bytes were
writable before, or fewer than the input has and the buffer has grown far enough. -/
theorem room_suffices_iff (h : b.WF) (hcap : b.capacity < 2 ^ 60) {n : ℕ} (hn : n < 2 ^ 62)
    (junk : ℕ → UInt8) {worstCase : ℕ → ℕ} (hworst : n < worstCase n) :
    ((∃ room, b.encodeRoom n junk = .ok room ∧ worstCase n ≤ room) ↔
      worstCase n ≤ b.capacity - b.reservedPrependSize ∨
        (b.capacity - b.reservedPrependSize < n ∧
          worstCase n ≤ b.capacity + (b.capacity - b.reservedPrependSize) + n)) ∧
    ((∃ room, b.streamingRoom n junk = .ok room ∧ worstCase n ≤ room) ↔
      worstCase n ≤ b.sizedCapacity - (b.reservedPrependSize + 4) ∨
        (b.sizedCapacity - (b.reservedPrependSize + 4) < n ∧
          worstCase n ≤
            b.sizedCapacity + (b.sizedCapacity - (b.reservedPrependSize + 4)) + n)) := by
  constructor
  · rw [h.encodeRoom_eq (by omega) hn junk, ← le_roomFor_iff hworst]
    simp only [Except.ok.injEq, exists_eq_left']
  · rw [h.streamingRoom_eq hcap hn junk, ← le_roomFor_iff hworst]
    simp only [Except.ok.injEq, exists_eq_left']

/-- A block with nothing in it but the reserve. -/
theorem wf_new {capacity reserved : ℕ} (hres : reserved ≤ capacity) (hsized : capacity < 2 ^ 64)
    (junk : ℕ → UInt8) : WF ⟨newChars junk capacity, capacity, reserved, reserved, reserved⟩ :=
  ⟨le_refl _, hres, hres, length_newChars _ _, hsized⟩

/-- A new buffer of the default sizes, 1024 bytes behind a reserve of eight. -/
theorem construct_default (junk : ℕ → UInt8) :
    construct 1024 8 junk = .ok ⟨newChars junk 1032, 1032, 8, 8, 8⟩ := by
  simp only [construct, length, writableBytes, prependableBytes, check, sizeT]
  rfl

/-- A new buffer, for lz4 and an input of 1000 bytes. -/
theorem room_suffices_new :
    ∃ b room room', construct 1024 8 (fun _ => 0) = .ok b ∧
      b.encodeRoom 1000 (fun _ => 0) = .ok room ∧ 1000 + 1000 / 255 + 16 ≤ room ∧
      b.streamingRoom 1000 (fun _ => 0) = .ok room' ∧ 1000 + 1000 / 255 + 16 ≤ room' := by
  let b : Buffer := ⟨newChars (fun _ => 0) 1032, 1032, 8, 8, 8⟩
  have hwf : b.WF := wf_new (by decide) (by decide) _
  obtain ⟨hencode, hstreaming⟩ := @room_suffices_iff b hwf (by decide) 1000 (by decide)
    (fun _ => 0) (fun n => n + n / 255 + 16) (by decide)
  obtain ⟨room, hroom, hle⟩ := hencode.mpr (.inl (by decide))
  obtain ⟨room', hroom', hle'⟩ := hstreaming.mpr (.inl (by decide))
  exact ⟨b, room, room', construct_default _, hroom, hle, hroom', hle'⟩

/-- A new buffer and an input of exactly the 1024 bytes that it has room for: less than the bound
of any codec. -/
theorem room_too_tight :
    ∃ b, construct 1024 8 (fun _ => 0) = .ok b ∧
      ∀ worstCase : ℕ → ℕ, (∀ n, n < worstCase n) →
        ∃ room, b.encodeRoom 1024 (fun _ => 0) = .ok room ∧ room < worstCase 1024 := by
  have hwf : WF ⟨newChars (fun _ => 0) 1032, 1032, 8, 8, 8⟩ := wf_new (by decide) (by decide) _
  refine ⟨_, construct_default _, fun worstCase hworst => ⟨1024, ?_, hworst 1024⟩⟩
  rw [hwf.encodeRoom_eq (by decide) (by decide)]
  rfl

end Buffer

end ArchNet

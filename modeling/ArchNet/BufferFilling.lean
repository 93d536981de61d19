import ArchNet.HeaderCodec
import ArchNet.Lts

/-!
# Filling a Buffer

Two members of `Buffer` that write behind its unread bytes: `ReadNFromSocketStream`, which lets any
stream store bytes there until it has as many as it was asked for, and `write_format`, which formats
into a block of its own until the block is large enough.

## Conventions

* A stream is a state with a function `recv`; `none` is a call that does not return.
* `size` is a `uint32_t`, and `snprintf` returns an `int`.
* Growing computes twice the capacity; blocks for which that wraps around are left out.

## Main results

* `readNFrom_exact`: **exactly the bytes that were asked for are appended**, or all there were.
* `writeFormat_appends`: **the whole text is appended**, of whatever length.
-/

open Bytes

namespace ArchNet.Buffer

/-! ### The exact read loop -/

section Reading

variable {σ : Type} {recv : σ → ℕ → Option (ℤ × List UInt8 × σ)} {b b' : Buffer} {s s' s₁ : σ}
  {size readn m : ℕ} {d chunk : List UInt8}

/-- Where the loop of `ReadNFromSocketStream` stands: `size` is what is still missing. -/
structure Reading (σ : Type) where
  buffer : Buffer
  stream : σ
  size : ℕ

/-- What one round comes to. -/
inductive Round (σ : Type)
  | returns (value : ℤ) (buffer : Buffer) (stream : σ)
  | again (r : Reading σ)

/-- `size -= n` in `uint32_t`. -/
def subSize (size : ℕ) (n : ℤ) : ℕ := (((size : ℤ) - n) % 2 ^ 32).toNat

/-- One round of the loop. -/
def round (recv : σ → ℕ → Option (ℤ × List UInt8 × σ)) (readn : ℕ) (r : Reading σ) :
    Option (Round σ) := do
  let (n, chunk, stream) ← recv r.stream r.size
  if n ≤ 0 then return .returns n r.buffer stream
  else
    let buffer := { r.buffer.fill chunk with writeIndex := sizeT (r.buffer.writeIndex + n.toNat) }
    let size := subSize r.size n
    if size = 0 then return .returns readn buffer stream
    else return .again { buffer, stream, size }

/-- The loop; the fuel bounds the rounds. -/
def readLoopFrom (recv : σ → ℕ → Option (ℤ × List UInt8 × σ)) (readn : ℕ) :
    ℕ → Reading σ → Option (ℤ × Buffer × σ)
  | 0, _ => none
  | fuel + 1, r => do
      match ← round recv readn r with
      | .returns value buffer stream => return (value, buffer, stream)
      | .again r => readLoopFrom recv readn fuel r

/-- `ReadNFromSocketStream(stream, size)`. -/
def readNFrom (recv : σ → ℕ → Option (ℤ × List UInt8 × σ)) (b : Buffer) (s : σ) (size fuel : ℕ)
    (junk : ℕ → UInt8) : Except Assertion (Option (ℤ × Buffer × σ)) := do
  let b ← b.ensureWritableBytes size junk
  return readLoopFrom recv size fuel { buffer := b, stream := s, size }

/-- The loop as a system: every request is made in one of its states. -/
def nextRound (recv : σ → ℕ → Option (ℤ × List UInt8 × σ)) (readn : ℕ) (r : Reading σ) (_ : Unit) :
    Option (Reading σ) :=
  match round recv readn r with
  | some (.again r') => some r'
  | _ => none

/-- What `recv` answers, **between one and as many bytes as it is asked for**, or a value that is
not positive. -/
def Answers (recv : σ → ℕ → Option (ℤ × List UInt8 × σ)) : Prop :=
  ∀ s m, 0 < m → ∃ n chunk s', recv s m = some (n, chunk, s') ∧
    (n ≤ 0 ∨ 0 < n ∧ n ≤ m ∧ (chunk.length : ℤ) = n)

/-- The stream **hands over** bytes, in any number of calls. -/
inductive Delivers (recv : σ → ℕ → Option (ℤ × List UInt8 × σ)) : σ → List UInt8 → σ → Prop
  | nil {s : σ} : Delivers recv s [] s
  | cons {s s₁ s' : σ} {m : ℕ} {n : ℤ} {chunk d : List UInt8} (hm : 0 < m) (hn : 0 < n)
      (hrecv : recv s m = some (n, chunk, s₁)) (hrest : Delivers recv s₁ d s') :
      Delivers recv s (chunk ++ d) s'

/-- The read **ends** with a value: the bytes that were asked for have been handed over, or all
before an answer that is not positive. -/
def Ends (recv : σ → ℕ → Option (ℤ × List UInt8 × σ)) (s : σ) (readn size : ℕ) (d : List UInt8)
    (value : ℤ) (s' : σ) : Prop :=
  (value = readn ∧ d.length = size ∧ Delivers recv s d s') ∨
    (value ≤ 0 ∧ d.length < size ∧ ∃ s₁ m chunk, Delivers recv s d s₁ ∧ 0 < m ∧
      recv s₁ m = some (value, chunk, s'))

/-- A request is made for **what there is room for**. -/
structure Reading.Fits (r : Reading σ) : Prop where
  wf : r.buffer.WF
  pos : 0 < r.size
  small : r.size < 2 ^ 32
  room : r.size ≤ r.buffer.capacity - r.buffer.writeIndex

theorem subSize_eq {n : ℤ} (hn : 0 < n) (hle : n ≤ size) (hsmall : size < 2 ^ 32) :
    subSize size n = size - n.toNat := by
  rw [subSize, Int.emod_eq_of_lt (by omega) (by omega)]
  omega

/-- **One round**: the read ends with what `recv` answers, or bytes have been appended, which end it
if they were all. -/
theorem Reading.Fits.round_cases {r : Reading σ} (h : r.Fits) (hrecv : Answers recv) (readn : ℕ) :
    (∃ value chunk s', recv r.stream r.size = some (value, chunk, s') ∧ value ≤ 0 ∧
      round recv readn r = some (.returns value r.buffer s')) ∨
    ∃ n chunk s' b', recv r.stream r.size = some (n, chunk, s') ∧ 0 < n ∧ chunk.length ≠ 0 ∧
      b'.WF ∧ b'.unread = r.buffer.unread ++ chunk ∧
      (chunk.length = r.size ∧ round recv readn r = some (.returns readn b' s') ∨
        ∃ r' : Reading σ, r'.buffer = b' ∧ r'.stream = s' ∧ r'.size + chunk.length = r.size ∧
          r'.Fits ∧ round recv readn r = some (.again r')) := by
  obtain ⟨n, chunk, s', heq, hn | ⟨hpos, hle, hlen⟩⟩ := hrecv r.stream r.size h.pos
  · refine .inl ⟨n, chunk, s', heq, hn, ?_⟩
    rw [round, heq, Option.bind_eq_bind, Option.bind_some]
    exact if_pos hn
  · have hroom := h.room
    have hwrite := h.wf.write_le
    have hsized := h.wf.sized
    obtain ⟨hwf, hun⟩ := h.wf.extend (d := chunk) (by omega)
    have hindex : sizeT (r.buffer.writeIndex + n.toNat) = r.buffer.writeIndex + chunk.length := by
      rw [sizeT_eq (by omega)]
      omega
    have hround : round recv readn r = if subSize r.size n = 0 then
        some (.returns readn { r.buffer.fill chunk with
          writeIndex := r.buffer.writeIndex + chunk.length } s')
        else some (.again {
          buffer := { r.buffer.fill chunk with
            writeIndex := r.buffer.writeIndex + chunk.length }
          stream := s'
          size := subSize r.size n }) := by
      rw [round, heq, Option.bind_eq_bind, Option.bind_some, ← hindex]
      exact if_neg (not_le.mpr hpos)
    refine .inr ⟨n, chunk, s', _, heq, hpos, by omega, hwf, hun, ?_⟩
    rw [hround, subSize_eq hpos hle h.small]
    by_cases hdone : r.size - n.toNat = 0
    · rw [if_pos hdone]
      exact .inl ⟨by omega, rfl⟩
    · rw [if_neg hdone]
      refine .inr ⟨_, rfl, rfl, ?_, ⟨hwf, Nat.pos_of_ne_zero hdone, ?_, ?_⟩, rfl⟩
      · change r.size - n.toNat + chunk.length = r.size
        omega
      · change r.size - n.toNat < 2 ^ 32
        have hsmall := h.small
        omega
      · change r.size - n.toNat ≤ r.buffer.capacity - (r.buffer.writeIndex + chunk.length)
        omega

/-- Bytes that come before those of an end. -/
theorem Ends.cons {n value : ℤ} (hm : 0 < m) (hn : 0 < n) (hrecv : recv s m = some (n, chunk, s₁))
    (h : Ends recv s₁ readn size d value s') :
    Ends recv s readn (size + chunk.length) (chunk ++ d) value s' := by
  rcases h with ⟨hvalue, hlen, hd⟩ | ⟨hvalue, hlen, s₂, k, last, hd, hk, hlast⟩
  · exact .inl ⟨hvalue, by rw [List.length_append]; omega, .cons hm hn hrecv hd⟩
  · exact .inr ⟨hvalue, by rw [List.length_append]; omega, s₂, k, last, .cons hm hn hrecv hd, hk,
      hlast⟩

/-- **The loop ends**, by induction on the rounds, with the bytes that were handed over behind the
unread ones. -/
theorem Reading.Fits.readLoopFrom {r : Reading σ} (h : r.Fits) (hrecv : Answers recv) {fuel : ℕ}
    (hfuel : r.size ≤ fuel) : ∃ value b' s' d,
      readLoopFrom recv readn fuel r = some (value, b', s') ∧ b'.WF ∧
        b'.unread = r.buffer.unread ++ d ∧ Ends recv r.stream readn r.size d value s' := by
  induction fuel generalizing r with
  | zero => exact absurd hfuel (by have := h.pos; omega)
  | succ fuel ih =>
      rcases h.round_cases hrecv readn with ⟨value, chunk, s', heq, hvalue, hround⟩ |
        ⟨n, chunk, s', b', heq, hn, hchunk, hwf, hun, hdone | ⟨r', rfl, rfl, hsize, hfits, hround⟩⟩
      · refine ⟨value, r.buffer, s', [], ?_, h.wf, (List.append_nil _).symm,
          .inr ⟨hvalue, h.pos, r.stream, r.size, chunk, .nil, h.pos, heq⟩⟩
        rw [Buffer.readLoopFrom, hround]
        rfl
      · obtain ⟨hlen, hround⟩ := hdone
        refine ⟨readn, b', s', chunk, ?_, hwf, hun, .inl ⟨rfl, hlen, ?_⟩⟩
        · rw [Buffer.readLoopFrom, hround]
          rfl
        · have hd := Delivers.cons h.pos hn heq .nil
          rwa [List.append_nil] at hd
      · obtain ⟨value, b', s', d, hloop, hwf', hun', hends⟩ := ih hfits (by omega)
        refine ⟨value, b', s', chunk ++ d, ?_, hwf', ?_, hsize ▸ hends.cons h.pos hn heq⟩
        · rw [Buffer.readLoopFrom, hround]
          exact hloop
        · rw [hun', hun, List.append_assoc]

/-- **Every request fits.** -/
theorem Reading.Fits.of_reach {r r' : Reading σ} (h : r.Fits) (hrecv : Answers recv)
    (hreach : Lts.Reach (nextRound recv readn) Lts.always r r') : r'.Fits := by
  refine hreach.invariant Reading.Fits h fun {r₁ r₂ a} hfits _ hstep => ?_
  rcases hfits.round_cases hrecv readn with ⟨value, chunk, s', -, -, hround⟩ |
    ⟨n, chunk, s', b', -, -, -, -, -, ⟨-, hround⟩ | ⟨r', -, -, -, hfits', hround⟩⟩
  · rw [nextRound, hround] at hstep
    cases hstep
  · rw [nextRound, hround] at hstep
    cases hstep
  · rw [nextRound, hround] at hstep
    exact Option.some.inj hstep ▸ hfits'

/-- **Exactly the bytes that were asked for are appended**, or all that came before the end; no
request is larger than the room behind the unread bytes. -/
theorem readNFrom_exact (recv : σ → ℕ → Option (ℤ × List UInt8 × σ)) (hrecv : Answers recv)
    (b : Buffer) (hwf : b.WF) (hcap : b.capacity < 2 ^ 62) (s : σ) (size : ℕ) (hpos : 0 < size)
    (hsize : size < 2 ^ 32) (junk : ℕ → UInt8) :
    ∃ b₀, b.ensureWritableBytes size junk = .ok b₀ ∧
      (∀ r, Lts.Reach (nextRound recv size) Lts.always { buffer := b₀, stream := s, size } r →
        r.size ≤ r.buffer.capacity - r.buffer.writeIndex) ∧
      ∀ fuel, size ≤ fuel → ∃ value b' s' d,
        readNFrom recv b s size fuel junk = .ok (some (value, b', s')) ∧ b'.WF ∧
        b'.unread = b.unread ++ d ∧ Ends recv s size size d value s' := by
  have hsized : b.capacity * 2 + size < 2 ^ 64 := by omega
  obtain ⟨b₀, hensure, hwf₀, hun₀, hroom⟩ := hwf.ensureWritableBytes hsized junk
  have hfits : Reading.Fits { buffer := b₀, stream := s, size } := ⟨hwf₀, hpos, hsize, hroom⟩
  refine ⟨b₀, hensure, fun r hreach => (hfits.of_reach hrecv hreach).room, fun fuel hfuel => ?_⟩
  obtain ⟨value, b', s', d, hloop, hwf', hun', hends⟩ :=
    @Reading.Fits.readLoopFrom _ _ size _ hfits hrecv fuel hfuel
  refine ⟨value, b', s', d, ?_, hwf', hun'.trans (congrArg (· ++ d) hun₀), hends⟩
  rw [readNFrom, hensure, ok_bind, hloop]
  rfl

/-- A stream of ones that hands over one byte at a time. -/
def ones (_ : Unit) (_ : ℕ) : Option (ℤ × List UInt8 × Unit) := some (1, [1], ())

/-- A buffer of four bytes behind a reserve of one. -/
def small : Buffer := ⟨[0, 0, 0, 0, 0], 5, 1, 1, 1⟩

theorem readNFrom_ones : ∃ value b' s' d,
    readNFrom ones small () 7 7 (fun _ => 0) = .ok (some (value, b', s')) ∧ b'.WF ∧
      b'.unread = small.unread ++ d ∧ Ends ones () 7 7 d value s' := by
  obtain ⟨b₀, -, -, h⟩ := readNFrom_exact ones
    (fun s m hm => ⟨1, [1], (), rfl, .inr ⟨by decide, by omega, rfl⟩⟩) small
    ⟨by decide, by decide, by decide, by decide, by decide⟩ (by decide) () 7 (by decide) (by decide)
    fun _ => 0
  exact h 7 le_rfl

end Reading

/-! ### Formatted text -/

section Formatting

variable {snprintf : ℕ → Int32 × List UInt8} {b : Buffer} {text mem : List UInt8} {n k : ℕ}

/-- `static_cast<size_t>` of an `int`. -/
def toSize (sn : Int32) : ℕ := (sn.toInt % 2 ^ 64).toNat

/-- The loop of `write_format`: `glowable_buf` doubles until it holds the text; the fuel bounds the
rounds. -/
def growLoop (snprintf : ℕ → Int32 × List UInt8) :
    ℕ → ℕ → List UInt8 → Option (ℕ × List UInt8)
  | 0, _, _ => none
  | fuel + 1, n, glowableBuf =>
      if glowableBuf.length - 1 ≤ n then
        let glowableBuf := glowableBuf ++ List.replicate glowableBuf.length 0
        let (sn, stored) := snprintf (glowableBuf.length - 1)
        growLoop snprintf fuel (toSize sn) (memcpy glowableBuf 0 stored)
      else some (n, glowableBuf)

/-- `write_format(fmt, args...)`, with what `snprintf` returns and stores for the size that it is
given. -/
def writeFormat (snprintf : ℕ → Int32 × List UInt8) (b : Buffer) (fuel : ℕ) (junk : ℕ → UInt8) :
    Except Assertion (Option (Buffer × ℤ)) := do
  let buf := List.replicate 2048 0
  let (sn, stored) := snprintf (buf.length - 1)
  let buf := memcpy buf 0 stored
  if sn.toInt ≤ 0 then return some (b, sn.toInt)
  else if buf.length - 1 ≤ toSize sn then
    match growLoop snprintf fuel (toSize sn) (List.replicate buf.length 0) with
    | none => return none
    | some (n, glowableBuf) =>
        let b ← b.write (span glowableBuf 0 n) junk
        return some (b, 0)
  else
    let b ← b.write (span buf 0 (toSize sn)) junk
    return some (b, 0)

/-- `snprintf` **of a text**: it returns its length, and stores what the size leaves room for and a
NUL. -/
def Formats (snprintf : ℕ → Int32 × List UInt8) (text : List UInt8) : Prop :=
  ∀ size, 0 < size → (snprintf size).1.toInt = text.length ∧
    (snprintf size).2 = text.take (min text.length (size - 1)) ++ [0]

theorem Formats.toSize_eq (h : Formats snprintf text) (hn : 0 < n) :
    toSize (snprintf n).1 = text.length := by
  have hlt := Int32.toInt_lt (snprintf n).1
  rw [toSize, (h n hn).1] at *
  omega

theorem Formats.length_stored_le (h : Formats snprintf text) (hn : 0 < n) :
    (snprintf n).2.length ≤ n := by
  rw [(h n hn).2, List.length_append, List.length_take, List.length_singleton]
  omega

/-- A text that fits is **stored whole**. -/
theorem Formats.span_eq (h : Formats snprintf text) (hn : 0 < n) (hfits : text.length < n) :
    span (memcpy mem 0 (snprintf n).2) 0 text.length = text := by
  have hmin : min text.length (n - 1) = text.length := by omega
  rw [(h n hn).2, hmin, List.take_length, span, memcpy, List.take_zero, List.nil_append,
    List.drop_zero, List.append_assoc, List.take_left]

/-- **The loop ends** with the whole text: a block that is too short is doubled, so that it has at
least one byte more. -/
theorem Formats.growLoop_eq (h : Formats snprintf text) {fuel : ℕ} (hlen : 2 ≤ mem.length)
    (hk : text.length + 2 ≤ mem.length + k) (hfuel : k < fuel)
    (hmem : text.length < mem.length - 1 → span mem 0 text.length = text) :
    ∃ mem', growLoop snprintf fuel text.length mem = some (text.length, mem') ∧
      span mem' 0 text.length = text := by
  induction k generalizing mem fuel with
  | zero =>
      obtain ⟨fuel, rfl⟩ := Nat.exists_eq_succ_of_ne_zero (Nat.ne_of_gt hfuel)
      exact ⟨mem, by rw [growLoop, if_neg (by omega)], hmem (by omega)⟩
  | succ k ih =>
      obtain ⟨fuel, rfl⟩ := Nat.exists_eq_succ_of_ne_zero (Nat.ne_of_gt (Nat.zero_lt_of_lt hfuel))
      rw [growLoop]
      by_cases hshort : mem.length - 1 ≤ text.length
      · have hdouble : (mem ++ List.replicate mem.length (0 : UInt8)).length = mem.length * 2 := by
          rw [List.length_append, List.length_replicate]
          omega
        have hpos : 0 < mem.length * 2 - 1 := by omega
        have hstored := h.length_stored_le hpos
        have hlength : (memcpy (mem ++ List.replicate mem.length 0) 0
            (snprintf (mem.length * 2 - 1)).2).length = mem.length * 2 := by
          rw [length_memcpy (by omega), hdouble]
        rw [if_pos hshort]
        dsimp only
        rw [hdouble, h.toSize_eq hpos]
        refine ih (by omega) (by omega) (by omega) fun hfits => h.span_eq hpos ?_
        omega
      · rw [if_neg hshort]
        exact ⟨mem, rfl, hmem (by omega)⟩

/-- **The whole text is appended**, of whatever length. -/
theorem writeFormat_appends (snprintf : ℕ → Int32 × List UInt8) (text : List UInt8)
    (h : Formats snprintf text) (hpos : 0 < text.length) (b : Buffer) (hwf : b.WF)
    (hcap : b.capacity < 2 ^ 62) (junk : ℕ → UInt8) :
    ∃ rounds, ∀ fuel, rounds ≤ fuel → ∃ b', writeFormat snprintf b fuel junk = .ok (some (b', 0)) ∧
      b'.WF ∧ b'.unread = b.unread ++ text := by
  have hint := Int32.toInt_lt (snprintf 2047).1
  obtain ⟨hsn, -⟩ := h 2047 (by decide)
  obtain ⟨b', hwrite, hwf', hun'⟩ := hwf.write (d := text) hcap (by omega) junk
  have hbuf : (memcpy (List.replicate 2048 0) 0 (snprintf 2047).2).length = 2048 := by
    have hstored := h.length_stored_le (n := 2047) (by decide)
    rw [length_memcpy (by rw [List.length_replicate]; omega), List.length_replicate]
  refine ⟨text.length + 1, fun fuel hfuel => ⟨b', ?_, hwf', hun'⟩⟩
  have hnot : ¬ (snprintf 2047).1.toInt ≤ 0 := by omega
  rw [writeFormat]
  dsimp only
  rw [List.length_replicate, if_neg hnot, h.toSize_eq (by decide), hbuf]
  by_cases hlong : 2048 - 1 ≤ text.length
  · have hlen : (List.replicate 2048 (0 : UInt8)).length = 2048 := List.length_replicate
    have hshort : ¬ text.length < (List.replicate 2048 (0 : UInt8)).length - 1 := by omega
    obtain ⟨mem', hloop, hspan⟩ := h.growLoop_eq (by omega) (by omega) hfuel
      fun hfits => absurd hfits hshort
    rw [if_pos hlong, hloop]
    dsimp only
    rw [hspan, hwrite]
    rfl
  · rw [if_neg hlong, h.span_eq (by decide) (by omega), hwrite]
    rfl

/-- `snprintf` of 2047 letters. -/
def letters (size : ℕ) : Int32 × List UInt8 :=
  (2047, (List.replicate 2047 97).take (min 2047 (size - 1)) ++ [0])

theorem writeFormat_letters : ∃ rounds, ∀ fuel, rounds ≤ fuel → ∃ b',
    writeFormat letters small fuel (fun _ => 0) = .ok (some (b', 0)) ∧ b'.WF ∧
      b'.unread = small.unread ++ List.replicate 2047 97 :=
  writeFormat_appends letters (List.replicate 2047 97)
    (fun size _ => ⟨by rw [List.length_replicate]; rfl, by rw [List.length_replicate]; rfl⟩)
    (by rw [List.length_replicate]; decide) small
    ⟨by decide, by decide, by decide, by decide, by decide⟩ (by decide) fun _ => 0

end Formatting

end ArchNet.Buffer

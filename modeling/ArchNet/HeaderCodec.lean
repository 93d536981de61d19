import ArchNet.Buffer
import ArchNet.MuxDefine

/-!
# The Header Codec on Its Buffers

`Header::encode` resets a buffer and appends five fields to it; `recv_and_decode` resets one,
reads twelve bytes from the stream into it and takes the fields out again. Both work on whatever
buffer they are given: of any capacity, also one that has to grow between two fields, with any
prepend reserve, also none, and with any unread bytes left in it.

## Conventions

* A `HeaderFields` is the class with its four fields as the code holds them; its `msg_type_` is
  any byte.
* Growing computes twice the capacity; blocks for which that wraps around are left out.

## Main results

* `Filled.write`: what is appended to a buffer that has been reset stays where the next append
  finds it, with or without growing.
* `readN_simulates`: **the read loop on a buffer** does what the loop on unread bytes does.
* `header_codec_round_trip`: **the codec inverts both ways**, for every header, every two buffers
  and every segmentation.
-/

open Bytes

namespace ArchNet

namespace Buffer

variable {b : Buffer} {q : List UInt8} {n : ℕ}

/-! ### Appending after a reset -/

/-- A buffer whose unread bytes `q` start at the reserve, and which can take `n` more without a
size that wraps around. -/
structure Filled (b : Buffer) (q : List UInt8) (n : ℕ) : Prop where
  wf : b.WF
  aligned : b.readIndex = b.reservedPrependSize
  unread : b.unread = q
  spare : n ≤ b.capacity - b.writeIndex ∨ b.capacity * 2 + n < 2 ^ 64

/-- A buffer after a **reset**. -/
theorem WF.filled_reset (h : b.WF) (hsize : b.capacity * 2 + n < 2 ^ 64) :
    Filled b.reset [] n := by
  obtain ⟨hwf, hun⟩ := h.reset
  exact ⟨hwf, rfl, hun, .inr hsize⟩

/-- **Room** for the next bytes: the block suffices, or it is exchanged for one that has room for
all that is still to come. -/
theorem Filled.ensureWritableBytes (h : Filled b q n) {len : ℕ} (hlen : len ≤ n)
    (hn : n < 2 ^ 32) (junk : ℕ → UInt8) :
    ∃ b', b.ensureWritableBytes len junk = .ok b' ∧ Filled b' q n ∧
      len ≤ b'.capacity - b'.writeIndex := by
  obtain ⟨hwf, haligned, hun, hspare⟩ := h
  rcases Nat.lt_or_ge (b.capacity - b.writeIndex) len with hroom | hroom
  · have hread := hwf.read_le
    have hwrite := hwf.write_le
    have hres := hwf.reserved_le
    have hsized : b.capacity * 2 + len < 2 ^ 64 := by omega
    obtain ⟨hwf', hun', hroom'⟩ := hwf.reallocate hsized junk
    have hgrow := hwf.grow_of_lt (by omega) (by omega) hsized junk
    refine ⟨_, hwf.ensureWritableBytes_of_grow hroom hgrow hwf' hroom',
      ⟨hwf', rfl, hun'.trans hun, ?_⟩, hroom'⟩
    change n ≤ b.capacity * 2 + len - (b.writeIndex - b.readIndex + b.reservedPrependSize) ∨
      (b.capacity * 2 + len) * 2 + n < 2 ^ 64
    omega
  · exact ⟨b, hwf.ensureWritableBytes_of_room hroom junk, ⟨hwf, haligned, hun, hspare⟩, hroom⟩

/-- **An append** lands behind what is there, and the next one has room or can get it. -/
theorem Filled.write (h : Filled b q n) {d : List UInt8} (hlen : d.length ≤ n) (hn : n < 2 ^ 32)
    (junk : ℕ → UInt8) :
    ∃ b', b.write d junk = .ok b' ∧ Filled b' (q ++ d) (n - d.length) := by
  obtain ⟨b', hensure, ⟨hwf, haligned, hun, hspare⟩, hroom⟩ := h.ensureWritableBytes hlen hn junk
  obtain ⟨hwf', hun'⟩ := hwf.extend hroom
  refine ⟨_, write_eq_of_ensure hensure hwf hroom, ⟨hwf', haligned, hun'.trans (by rw [hun]), ?_⟩⟩
  change n - d.length ≤ b'.capacity - (b'.writeIndex + d.length) ∨
    b'.capacity * 2 + (n - d.length) < 2 ^ 64
  omega

theorem Filled.appendInt (h : Filled b q n) {t : IntType} (x : ℤ) (hlen : t.size ≤ n)
    (hn : n < 2 ^ 32) (junk : ℕ → UInt8) :
    ∃ b', b.appendInt t x junk = .ok b' ∧ Filled b' (q ++ t.toBytes x) (n - t.size) := by
  have hwrite := h.write (d := t.toBytes x) (by rwa [IntType.length_toBytes]) hn junk
  rwa [IntType.length_toBytes] at hwrite

/-- An unsigned value from the front of the unread bytes. -/
theorem WF.readInt_append (h : b.WF) {t : IntType} (hsigned : t.signed = false)
    {front rest : List UInt8} (hfront : front.length = t.size) (hun : b.unread = front ++ rest) :
    ∃ b', b.readInt t = .ok (b', (beVal front : ℤ)) ∧ b'.WF ∧ b'.unread = rest := by
  have hsize : t.size ≤ b.writeIndex - b.readIndex := by
    rw [← h.length_unread, hun, List.length_append]
    omega
  obtain ⟨b', hread, hwf, hun'⟩ := h.readInt hsize
  rw [hun, ← hfront, List.take_left, IntType.ofBytes_eq t hfront, IntType.ofPattern, hsigned]
    at hread
  rw [hun, ← hfront, List.drop_left] at hun'
  exact ⟨b', hread, hwf, hun'⟩

/-! ### Reading into a buffer -/

/-- The loop of `ReadNFromSocketStream`: `readn` is the size first asked for, `size` what is
still missing; the fuel bounds the rounds. -/
def readNLoop (readn : ℕ) : ℕ → Buffer → Source → ℕ → Option (ℤ × Buffer × Source)
  | 0, _, _, _ => none
  | fuel + 1, b, src, size => do
      let (n, chunk, src) ← src.recv size
      if n ≤ 0 then some (n, b, src)
      else
        let b := { b.fill chunk with writeIndex := sizeT (b.writeIndex + n.toNat) }
        let size := size - n.toNat
        if size = 0 then some (readn, b, src) else readNLoop readn fuel b src size

/-- `ReadNFromSocketStream(stream, size)`; `none` while the read blocks. -/
def readN (b : Buffer) (src : Source) (size : ℕ) (junk : ℕ → UInt8) :
    Except Assertion (Option (ℤ × Buffer × Source)) := do
  let b ← b.ensureWritableBytes size junk
  return readNLoop size (size + 1) b src size

/-- What a `recv` stores is what it says. -/
theorem length_of_recv {src src' : Source} {size : ℕ} {m : ℤ} {chunk : List UInt8}
    (h : src.recv size = some (m, chunk, src')) (hpos : ¬ m ≤ 0) :
    chunk.length = m.toNat ∧ m.toNat ≤ size := by
  rw [Source.recv] at h
  split_ifs at h with hzero hempty
  · obtain ⟨rfl, -⟩ := Prod.ext_iff.mp (Option.some.inj h)
    exact absurd (Int.le_refl 0) hpos
  · obtain ⟨e, -, he⟩ := Option.map_eq_some_iff.mp h
    obtain ⟨rfl, -⟩ := Prod.ext_iff.mp he
    exact absurd e.answer_le hpos
  · obtain ⟨rfl, hrest⟩ := Prod.ext_iff.mp (Option.some.inj h)
    obtain ⟨rfl, -⟩ := Prod.ext_iff.mp hrest
    simp only [List.length_take, Int.toNat_natCast]
    omega

/-- **The loop on a buffer simulates the loop on its unread bytes**, by induction on the rounds:
what a round stores is what the unread bytes grow by. -/
theorem readNLoop_simulates (readn fuel : ℕ) {b : Buffer} (src : Source) {size : ℕ} (h : b.WF)
    (hroom : size ≤ b.capacity - b.writeIndex) :
    match readLoop readn fuel src size b.unread with
    | none => readNLoop readn fuel b src size = none
    | some (m, q, src') => ∃ b', readNLoop readn fuel b src size = some (m, b', src') ∧
        b'.WF ∧ b'.unread = q := by
  induction fuel generalizing b src size with
  | zero => rfl
  | succ fuel ih =>
      rw [readLoop, readNLoop]
      cases hrecv : src.recv size with
      | none => rfl
      | some res =>
          obtain ⟨m, chunk, src'⟩ := res
          simp only [Option.bind_eq_bind, Option.bind_some]
          by_cases hend : m ≤ 0
          · rw [if_pos hend, if_pos hend]
            exact ⟨b, rfl, h, rfl⟩
          · obtain ⟨hlen, hle⟩ := length_of_recv hrecv hend
            obtain ⟨hwf, hun⟩ := h.extend (d := chunk) (by omega)
            have hindex : sizeT (b.writeIndex + m.toNat) = b.writeIndex + chunk.length := by
              have := h.write_le
              have := h.sized
              rw [sizeT_eq (by omega), hlen]
            rw [if_neg hend, if_neg hend, fill, hindex]
            by_cases hdone : size - m.toNat = 0
            · rw [if_pos hdone, if_pos hdone]
              exact ⟨_, rfl, hwf, hun⟩
            · rw [if_neg hdone, if_neg hdone, ← hun]
              refine ih src' hwf ?_
              change size - m.toNat ≤ b.capacity - (b.writeIndex + chunk.length)
              omega

/-- **A read into an empty buffer**. -/
theorem WF.readN_simulates (h : b.WF) (hempty : b.unread = []) (src : Source) {size : ℕ}
    (hcap : b.capacity * 2 + size < 2 ^ 64) (junk : ℕ → UInt8) :
    match readNFromSocketStream src size with
    | none => b.readN src size junk = .ok none
    | some (m, q, src') => ∃ b', b.readN src size junk = .ok (some (m, b', src')) ∧
        b'.WF ∧ b'.unread = q := by
  obtain ⟨b', hensure, hwf, hun, hroom⟩ := h.ensureWritableBytes hcap junk
  have hsim := readNLoop_simulates size (size + 1) src hwf hroom
  rw [hun, hempty] at hsim
  rw [readN, hensure, ok_bind, readNFromSocketStream]
  cases hread : readLoop size (size + 1) src size [] with
  | none =>
      rw [hread] at hsim
      rw [hsim]
      rfl
  | some res =>
      rw [hread] at hsim
      obtain ⟨b'', heq, hwf'', hun''⟩ := hsim
      exact ⟨b'', by rw [heq]; rfl, hwf'', hun''⟩

end Buffer

open Buffer

/-! ### The codec -/

/-- `class Header` as the code holds it. -/
structure HeaderFields where
  msgType : UInt8
  flags : UInt16
  streamId : UInt32
  length : UInt32
  deriving DecidableEq, Repr

/-- `encode(buff, msg_type, flags, stream_id, length)`; each append may grow the block. -/
def HeaderFields.encodeInto (h : HeaderFields) (buff : Buffer) (junk : ℕ → ℕ → UInt8) :
    Except Assertion Buffer := do
  let buff := buff.reset
  let buff ← buff.appendInt .uint8 0 (junk 0)
  let buff ← buff.appendInt .uint8 h.msgType.toNat (junk 1)
  let buff ← buff.appendInt .uint16 h.flags.toNat (junk 2)
  let buff ← buff.appendInt .uint32 h.streamId.toNat (junk 3)
  buff.appendInt .uint32 h.length.toNat (junk 4)

/-- The reads of `recv_and_decode`: its result, the header and the buffer afterwards. -/
def HeaderFields.readFields (hdr : HeaderFields) (buff : Buffer) :
    Except Assertion (ℤ × HeaderFields × Buffer) := do
  let (buff, magVal) ← buff.readInt .uint8
  if magVal ≠ 0 then
    return (-1, hdr, buff)
  else
    let (buff, msgType) ← buff.readInt .uint8
    let hdr := { hdr with msgType := UInt8.ofInt msgType }
    if hdr.msgType < 0 ∨ 3 < hdr.msgType then
      return (-2, hdr, buff)
    else
      let (buff, flags) ← buff.readInt .uint16
      let (buff, streamId) ← buff.readInt .uint32
      let (buff, length) ← buff.readInt .uint32
      return (1, { hdr with
        flags := UInt16.ofInt flags
        streamId := UInt32.ofInt streamId
        length := UInt32.ofInt length }, buff)

/-- `recv_and_decode(buff, stream)`; `none` while the read blocks. -/
def HeaderFields.recvAndDecodeInto (hdr : HeaderFields) (buff : Buffer) (src : Source)
    (junk : ℕ → UInt8) : Except Assertion (Option (ℤ × HeaderFields × Buffer × Source)) := do
  match ← buff.reset.readN src headerSize junk with
  | none => return none
  | some (n, buff, src) =>
      if n ≤ 0 then
        return some (-1, hdr, buff, src)
      else
        let (ret, hdr, buff) ← hdr.readFields buff
        return some (ret, hdr, buff, src)

namespace HeaderFields

/-- The fields on the wire. -/
def bytes (h : HeaderFields) : List UInt8 :=
  [0, h.msgType] ++ beBytes 2 h.flags.toNat ++ beBytes 4 h.streamId.toNat
    ++ beBytes 4 h.length.toNat

@[simp] theorem length_bytes (h : HeaderFields) : h.bytes.length = headerSize := by
  simp [bytes, headerSize]

/-- The header of a session's model, as the code holds it. -/
def ofHeader (h : Header) : HeaderFields := ⟨h.msgType.toByte, h.flags, h.streamId, h.length⟩

/-- Both have the same bytes. -/
theorem bytes_ofHeader (h : Header) : (ofHeader h).bytes = h.encode := rfl

/-- An unsigned value is written as its bytes. -/
theorem toBytes_natCast (t : IntType) (n : ℕ) : t.toBytes n = beBytes t.size n := by
  have hpattern : t.pattern n = n % 256 ^ t.size := by
    cases t <;> simp only [IntType.pattern, IntType.size] <;> omega
  have hsplit := beBytes_add_mul t.size 0 (n / 256 ^ t.size) (n % 256 ^ t.size)
  rw [Nat.add_zero, Nat.mul_comm, Nat.div_add_mod] at hsplit
  rw [IntType.toBytes_eq, hpattern, hsplit]

/-- **`encode` writes the twelve bytes** of the header, whatever the buffer was. -/
theorem encodeInto_eq (h : HeaderFields) {buff : Buffer} (hwf : buff.WF)
    (hcap : buff.capacity * 2 + headerSize < 2 ^ 64) (junk : ℕ → ℕ → UInt8) :
    ∃ buff', h.encodeInto buff junk = .ok buff' ∧ buff'.WF ∧ buff'.unread = h.bytes := by
  have hn : headerSize < 2 ^ 32 := by decide
  obtain ⟨b₁, h₁, hf₁⟩ := (hwf.filled_reset hcap).appendInt (t := .uint8) 0 (by decide) hn (junk 0)
  obtain ⟨b₂, h₂, hf₂⟩ := hf₁.appendInt (t := .uint8) h.msgType.toNat (by decide) (by decide)
    (junk 1)
  obtain ⟨b₃, h₃, hf₃⟩ := hf₂.appendInt (t := .uint16) h.flags.toNat (by decide) (by decide)
    (junk 2)
  obtain ⟨b₄, h₄, hf₄⟩ := hf₃.appendInt (t := .uint32) h.streamId.toNat (by decide) (by decide)
    (junk 3)
  obtain ⟨b₅, h₅, hf₅⟩ := hf₄.appendInt (t := .uint32) h.length.toNat (by decide) (by decide)
    (junk 4)
  refine ⟨b₅, ?_, hf₅.wf, hf₅.unread.trans ?_⟩
  · rw [encodeInto, h₁, ok_bind, h₂, ok_bind, h₃, ok_bind, h₄, ok_bind, h₅]
  · have hbyte : beBytes 1 h.msgType.toNat = [h.msgType] := by simp [beBytes]
    have hmagic : IntType.uint8.toBytes 0 = [0] := rfl
    rw [hmagic]
    simp only [toBytes_natCast, IntType.size, hbyte, bytes, List.nil_append, List.append_assoc,
      List.cons_append]

/-- A number is known from its bytes. -/
theorem beBytes_inj {k x y : ℕ} (h : beBytes k x = beBytes k y) (hx : x < 256 ^ k)
    (hy : y < 256 ^ k) : x = y := by
  have hval := congrArg beVal h
  rwa [beVal_beBytes, beVal_beBytes, Nat.mod_eq_of_lt hx, Nat.mod_eq_of_lt hy] at hval

/-- A header is known from its bytes. -/
theorem bytes_injective : Function.Injective bytes := by
  rintro ⟨t, fl, id, len⟩ ⟨t', fl', id', len'⟩ heq
  simp only [bytes, List.append_assoc, List.cons_append, List.nil_append, List.cons.injEq,
    true_and] at heq
  obtain ⟨rfl, heq⟩ := heq
  obtain ⟨hfl, heq⟩ := List.append_inj heq (by simp)
  obtain ⟨hid, hlen⟩ := List.append_inj heq (by simp)
  rw [UInt16.toNat_inj.mp (beBytes_inj hfl fl.toNat_lt fl'.toNat_lt),
    UInt32.toNat_inj.mp (beBytes_inj hid id.toNat_lt id'.toNat_lt),
    UInt32.toNat_inj.mp (beBytes_inj hlen len.toNat_lt len'.toNat_lt)]

/-! ### What is read -/

/-- The fields that stand in some bytes. -/
def ofVals (t : UInt8) (fl id len : List UInt8) : HeaderFields :=
  ⟨t, UInt16.ofInt (beVal fl : ℤ), UInt32.ofInt (beVal id : ℤ), UInt32.ofInt (beVal len : ℤ)⟩

theorem ofInt_natCast_uint16 (n : ℕ) : UInt16.ofInt (n : ℤ) = UInt16.ofNat n := by
  apply UInt16.toNat_inj.mp
  rw [UInt16.ofInt, UInt16.toNat_ofNat', UInt16.toNat_ofNat']
  omega

theorem ofInt_natCast_uint32 (n : ℕ) : UInt32.ofInt (n : ℤ) = UInt32.ofNat n := by
  apply UInt32.toNat_inj.mp
  rw [UInt32.ofInt, UInt32.toNat_ofNat', UInt32.toNat_ofNat']
  omega

/-- They have these bytes. -/
theorem bytes_ofVals (t : UInt8) {fl id len : List UInt8} (hfl : fl.length = 2)
    (hid : id.length = 4) (hlen : len.length = 4) :
    (ofVals t fl id len).bytes = [0] ++ ([t] ++ (fl ++ (id ++ len))) := by
  have hshort : ∀ l : List UInt8, l.length = 2 → (UInt16.ofInt (beVal l : ℤ)).toNat = beVal l := by
    intro l hl
    have hlt := beVal_lt l
    rw [hl] at hlt
    rw [ofInt_natCast_uint16, UInt16.toNat_ofNat']
    omega
  have hword : ∀ l : List UInt8, l.length = 4 → (UInt32.ofInt (beVal l : ℤ)).toNat = beVal l := by
    intro l hl
    have hlt := beVal_lt l
    rw [hl] at hlt
    rw [ofInt_natCast_uint32, UInt32.toNat_ofNat']
    omega
  have hback : ∀ l : List UInt8, ∀ k, l.length = k → beBytes k (beVal l) = l := by
    rintro l _ rfl
    exact beBytes_beVal l
  simp only [bytes, ofVals, hshort fl hfl, hword id hid, hword len hlen, hback fl 2 hfl,
    hback id 4 hid, hback len 4 hlen, List.append_assoc, List.cons_append, List.nil_append]

/-- The reads of `recv_and_decode` on twelve bytes, one field after the other. -/
theorem readFields_append (hdr : HeaderFields) {buff : Buffer} (hwf : buff.WF) {m t : UInt8}
    {fl id len : List UInt8} (hfl : fl.length = 2) (hid : id.length = 4) (hlen : len.length = 4)
    (hun : buff.unread = [m] ++ ([t] ++ (fl ++ (id ++ len)))) :
    ∃ hdr' buff', hdr.readFields buff =
        .ok (if m ≠ 0 then -1 else if 3 < t then -2 else 1, hdr', buff') ∧
      (m = 0 → t ≤ 3 → hdr' = ofVals t fl id len ∧ buff'.unread = []) := by
  obtain ⟨b₁, h₁, hwf₁, hun₁⟩ := hwf.readInt_append (t := .uint8) rfl rfl hun
  obtain ⟨b₂, h₂, hwf₂, hun₂⟩ := hwf₁.readInt_append (t := .uint8) rfl rfl hun₁
  obtain ⟨b₃, h₃, hwf₃, hun₃⟩ := hwf₂.readInt_append (t := .uint16) rfl hfl hun₂
  obtain ⟨b₄, h₄, hwf₄, hun₄⟩ := hwf₃.readInt_append (t := .uint32) rfl hid hun₃
  obtain ⟨b₅, h₅, hwf₅, hun₅⟩ := hwf₄.readInt_append (t := .uint32) rfl hlen
    (hun₄.trans (List.append_nil len).symm)
  have hbyte : ∀ x : UInt8, beVal [x] = x.toNat := by
    intro x
    simp [beVal]
  have hofInt : UInt8.ofInt (t.toNat : ℤ) = t := by
    have ht : ((t.toNat : ℤ) % 2 ^ 8).toNat = t.toNat := by
      have := t.toNat_lt
      omega
    rw [UInt8.ofInt, ht, UInt8.ofNat_toNat]
  have hneg : ¬ t < 0 := UInt8.not_lt.mpr (UInt8.zero_le ..)
  rw [readFields, h₁, ok_bind, hbyte]
  dsimp only
  by_cases hmagic : m = 0
  · subst hmagic
    rw [if_neg (by simp), if_neg (by simp), h₂, ok_bind, hbyte]
    dsimp only
    rw [hofInt]
    by_cases htype : 3 < t
    · rw [if_pos (.inr htype), if_pos htype]
      exact ⟨_, _, rfl, fun _ hle => absurd htype (UInt8.not_lt.mpr hle)⟩
    · rw [if_neg (not_or.mpr ⟨hneg, htype⟩), if_neg htype, h₃, ok_bind]
      dsimp only
      rw [h₄, ok_bind]
      dsimp only
      rw [h₅, ok_bind]
      exact ⟨_, _, rfl, fun _ _ => ⟨rfl, hun₅⟩⟩
  · have hne : ((m.toNat : ℕ) : ℤ) ≠ 0 := by
      intro hzero
      exact hmagic (UInt8.toNat_inj.mp (Int.natCast_eq_zero.mp hzero))
    rw [if_pos hne, if_pos hmagic]
    exact ⟨_, _, rfl, fun hzero => absurd hzero hmagic⟩

/-- Twelve bytes, field by field. -/
theorem exists_fields {l : List UInt8} (hl : l.length = headerSize) :
    ∃ m t fl id len, fl.length = 2 ∧ id.length = 4 ∧ len.length = 4 ∧
      l = [m] ++ ([t] ++ (fl ++ (id ++ len))) := by
  rw [headerSize] at hl
  cases l with
  | nil => cases hl
  | cons m l =>
      cases l with
      | nil => cases hl
      | cons t l =>
          simp only [List.length_cons] at hl
          refine ⟨m, t, l.take 2, (l.drop 2).take 4, l.drop 6, ?_, ?_, ?_, ?_⟩
          · rw [List.length_take]
            omega
          · rw [List.length_take, List.length_drop]
            omega
          · rw [List.length_drop]
            omega
          · have hsplit : (l.drop 2).take 4 ++ l.drop 6 = l.drop 2 := by
              have := List.take_append_drop 4 (l.drop 2)
              rwa [List.drop_drop] at this
            rw [hsplit, List.take_append_drop]
            rfl

/-- A read that does not fail gives all the bytes it was asked for. -/
theorem length_of_readN {src src' : Source} {n : ℕ} {m : ℤ} {l : List UInt8} (hn : 0 < n)
    (hread : readNFromSocketStream src n = some (m, l, src')) (hpos : ¬ m ≤ 0) :
    l.length = n ∧ src.bytes = l ++ src'.bytes := by
  rcases Nat.lt_or_ge src.bytes.length n with hshort | hlen
  · obtain ⟨e, cuts, -, hres⟩ := readNFromSocketStream_short hshort hread
    obtain ⟨rfl, -⟩ := Prod.ext_iff.mp hres
    exact absurd e.answer_le hpos
  · obtain ⟨cuts, heq⟩ := readNFromSocketStream_eq hn hlen
    rw [heq] at hread
    obtain ⟨-, hrest⟩ := Prod.ext_iff.mp (Option.some.inj hread)
    obtain ⟨rfl, rfl⟩ := Prod.ext_iff.mp hrest
    exact ⟨List.length_take_of_le hlen, (List.take_append_drop n src.bytes).symm⟩

/-- **What `recv_and_decode` answers on twelve bytes** of a stream, under any segmentation and
whatever the buffer was. -/
theorem recvAndDecodeInto_eq (hdr : HeaderFields) {buff : Buffer} (hwf : buff.WF)
    (hcap : buff.capacity * 2 + headerSize < 2 ^ 64) (junk : ℕ → UInt8) {src : Source}
    {m t : UInt8} {fl id len rest : List UInt8} (hfl : fl.length = 2) (hid : id.length = 4)
    (hlen : len.length = 4) (hsrc : src.bytes = [m] ++ ([t] ++ (fl ++ (id ++ len))) ++ rest) :
    ∃ hdr' buff' cuts, hdr.recvAndDecodeInto buff src junk =
        .ok (some (if m ≠ 0 then -1 else if 3 < t then -2 else 1, hdr', buff',
          { src with bytes := rest, cuts := cuts })) ∧
      (m = 0 → t ≤ 3 → hdr' = ofVals t fl id len ∧ buff'.unread = []) := by
  have hl : ([m] ++ ([t] ++ (fl ++ (id ++ len)))).length = headerSize := by
    simp [hfl, hid, hlen, headerSize]
  have hle : headerSize ≤ src.bytes.length := by
    rw [hsrc, List.length_append, hl]
    omega
  obtain ⟨cuts, hread⟩ := readNFromSocketStream_eq (by decide : 0 < headerSize) hle
  obtain ⟨hwf₀, hempty⟩ := hwf.reset
  have hsim := hwf₀.readN_simulates hempty src hcap junk
  rw [hread, hsrc, ← hl, List.take_left, List.drop_left, hl] at hsim
  obtain ⟨buff₁, heq, hwf₁, hun₁⟩ := hsim
  obtain ⟨hdr', buff', hfields, hok⟩ := hdr.readFields_append hwf₁ hfl hid hlen hun₁
  refine ⟨hdr', buff', cuts, ?_, hok⟩
  rw [recvAndDecodeInto, heq, ok_bind]
  dsimp only
  rw [if_neg (by decide), hfields, ok_bind]
  rfl

/-! ### The session's model of the read -/

theorem toByte_of_ofByte? {b : UInt8} {t : MsgType} (h : MsgType.ofByte? b = some t) :
    t.toByte = b := by
  rw [MsgType.ofByte?] at h
  split_ifs at h <;> cases h <;> symm <;> assumption

/-- The types above `typeGoAway` are not known. -/
theorem ofByte?_eq_none_iff (t : UInt8) : MsgType.ofByte? t = none ↔ 3 < t := by
  rw [MsgType.ofByte?]
  split_ifs <;> grind

/-- `Header.decode` on twelve bytes. -/
theorem decode_append (m t : UInt8) {fl id len : List UInt8} (hfl : fl.length = 2)
    (hid : id.length = 4) (hlen : len.length = 4) :
    Header.decode ([m] ++ ([t] ++ (fl ++ (id ++ len)))) =
      if m ≠ 0 then (-1, none)
      else match MsgType.ofByte? t with
        | none => (-2, none)
        | some type => (1, some ⟨type, UInt16.ofNat (beVal fl), UInt32.ofNat (beVal id),
            UInt32.ofNat (beVal len)⟩) := by
  have hfl' : (fl ++ (id ++ len)).take 2 = fl := List.take_left' hfl
  have hid' : ((fl ++ (id ++ len)).drop 2).take 4 = id := by
    rw [List.drop_left' hfl, List.take_left' hid]
  have hlen' : ((fl ++ (id ++ len)).drop 6).take 4 = len := by
    rw [← List.append_assoc, List.drop_left' (by rw [List.length_append, hfl, hid]),
      List.take_of_length_le (by omega)]
  rw [Header.decode]
  change (if m ≠ 0 then _ else match MsgType.ofByte? t with
    | none => _
    | some type => ((1 : ℤ), some (Header.mk type
        (UInt16.ofNat (beVal ((fl ++ (id ++ len)).take 2)))
        (UInt32.ofNat (beVal (((fl ++ (id ++ len)).drop 2).take 4)))
        (UInt32.ofNat (beVal (((fl ++ (id ++ len)).drop 6).take 4)))))) = _
  rw [hfl', hid', hlen']

/-- **The session's model of `recv_and_decode` is what happens on the buffer**: the same status
and the same bytes consumed, and after a success the same header. -/
theorem recvAndDecodeInto_refines (hdr : HeaderFields) {buff : Buffer} (hwf : buff.WF)
    (hcap : buff.capacity * 2 + headerSize < 2 ^ 64) (junk : ℕ → UInt8) (old : Header)
    (src : Source) :
    match recvAndDecode old src with
    | none => hdr.recvAndDecodeInto buff src junk = .ok none
    | some (ret, h, src') => ∃ hdr' buff',
        hdr.recvAndDecodeInto buff src junk = .ok (some (ret, hdr', buff', src')) ∧
        (ret = 1 → hdr' = ofHeader h ∧ buff'.unread = []) := by
  obtain ⟨hwf₀, hempty⟩ := hwf.reset
  have hsim := hwf₀.readN_simulates hempty src hcap junk
  rw [recvAndDecodeInto, recvAndDecode]
  cases hread : readNFromSocketStream src headerSize with
  | none =>
      rw [hread] at hsim
      rw [hsim]
      rfl
  | some res =>
      obtain ⟨n, l, src'⟩ := res
      rw [hread] at hsim
      obtain ⟨buff', heq, hwf', hun⟩ := hsim
      rw [heq, ok_bind]
      simp only [Option.bind_eq_bind, Option.bind_some]
      by_cases hend : n ≤ 0
      · rw [if_pos hend, if_pos hend]
        exact ⟨hdr, buff', rfl, fun h => absurd h (by decide)⟩
      · rw [if_neg hend, if_neg hend]
        obtain ⟨m, t, fl, id, len, hfl, hid, hlen, rfl⟩ :=
          exists_fields (length_of_readN (by decide) hread hend).1
        obtain ⟨hdr', buff'', hfields, hok⟩ := hdr.readFields_append hwf' hfl hid hlen hun
        rw [hfields, ok_bind, decode_append m t hfl hid hlen]
        by_cases hmagic : m = 0
        · subst hmagic
          rw [if_neg (by simp), if_neg (by simp)]
          cases htype : MsgType.ofByte? t with
          | none =>
              rw [if_pos ((ofByte?_eq_none_iff t).mp htype)]
              refine ⟨hdr', buff'', rfl, fun hone => ?_⟩
              exact absurd (show (-2 : ℤ) = 1 from hone) (by decide)
          | some type =>
              have hle : ¬ 3 < t := by
                intro hbig
                rw [(ofByte?_eq_none_iff t).mpr hbig] at htype
                cases htype
              rw [if_neg hle]
              refine ⟨hdr', buff'', rfl, fun _ => ?_⟩
              obtain ⟨hvals, hempty⟩ := hok rfl (UInt8.not_lt.mp hle)
              refine ⟨hvals.trans ?_, hempty⟩
              change _ = HeaderFields.mk type.toByte _ _ _
              rw [toByte_of_ofByte? htype, ofVals, ofInt_natCast_uint16, ofInt_natCast_uint32,
                ofInt_natCast_uint32]
              rfl
        · rw [if_pos hmagic, if_pos hmagic]
          exact ⟨hdr', buff'', rfl, fun h => absurd h (by decide)⟩

/-! ### Both directions -/

/-- **The header codec round-trips in both directions**, on buffers in any state whose blocks can
grow. A header with a known type is encoded in twelve bytes, from which it is read back under any
segmentation, and nothing behind them is consumed; and where twelve bytes are accepted, the first
is zero, the second a known type, and the header that was read encodes to these bytes. -/
theorem header_codec_round_trip (buff buff' : Buffer) (hwf : buff.WF) (hwf' : buff'.WF)
    (hcap : buff.capacity * 2 + headerSize < 2 ^ 64)
    (hcap' : buff'.capacity * 2 + headerSize < 2 ^ 64) (junk : ℕ → ℕ → UInt8)
    (junk' : ℕ → UInt8) :
    (∀ h : HeaderFields, h.msgType ≤ 3 →
      ∃ encoded, h.encodeInto buff junk = .ok encoded ∧ encoded.unread.length = headerSize ∧
        ∀ (hdr : HeaderFields) (src : Source) (rest : List UInt8),
          src.bytes = encoded.unread ++ rest →
          ∃ decoded cuts, hdr.recvAndDecodeInto buff' src junk' =
            .ok (some (1, h, decoded, { src with bytes := rest, cuts := cuts })) ∧
            decoded.unread = []) ∧
    ∀ (input rest : List UInt8) (src src' : Source) (hdr h : HeaderFields) (decoded : Buffer),
      input.length = headerSize → src.bytes = input ++ rest →
      hdr.recvAndDecodeInto buff' src junk' = .ok (some (1, h, decoded, src')) →
      src'.bytes = rest ∧ input.getD 0 1 = 0 ∧ input.getD 1 4 ≤ 3 ∧
        ∃ encoded, h.encodeInto buff junk = .ok encoded ∧ encoded.unread = input := by
  constructor
  · intro h htype
    obtain ⟨encoded, henc, -, hun⟩ := h.encodeInto_eq hwf hcap junk
    refine ⟨encoded, henc, by rw [hun, length_bytes], ?_⟩
    intro hdr src rest hsrc
    obtain ⟨m, t, fl, id, len, hfl, hid, hlen, hl⟩ := exists_fields (length_bytes h)
    rw [hun, hl] at hsrc
    obtain ⟨hdr', decoded, cuts, hres, hok⟩ :=
      hdr.recvAndDecodeInto_eq hwf' hcap' junk' hfl hid hlen hsrc
    -- the first two bytes are the zero and the type of the header
    obtain ⟨rfl, hrest⟩ : (0 : UInt8) = m ∧ _ := List.cons.inj hl
    obtain ⟨rfl, -⟩ : h.msgType = t ∧ _ := List.cons.inj hrest
    obtain ⟨rfl, hempty⟩ := hok rfl htype
    rw [if_neg (by simp), if_neg (UInt8.not_lt.mpr htype)] at hres
    have hback : ofVals h.msgType fl id len = h := by
      apply bytes_injective
      rw [bytes_ofVals _ hfl hid hlen, hl]
    rw [hback] at hres
    exact ⟨decoded, cuts, hres, hempty⟩
  · intro input rest src src' hdr h decoded hlength hsrc hone
    obtain ⟨m, t, fl, id, len, hfl, hid, hlen, rfl⟩ := exists_fields hlength
    obtain ⟨hdr', decoded', cuts, hres, hok⟩ :=
      hdr.recvAndDecodeInto_eq hwf' hcap' junk' hfl hid hlen hsrc
    rw [hone] at hres
    simp only [Except.ok.injEq, Option.some.injEq, Prod.mk.injEq] at hres
    obtain ⟨hstatus, rfl, -, rfl⟩ := hres
    split_ifs at hstatus with hmagic htype
    have hm : m = 0 := not_not.mp hmagic
    obtain ⟨rfl, -⟩ := hok hm (UInt8.not_lt.mp htype)
    obtain ⟨encoded, henc, -, hun⟩ := (ofVals t fl id len).encodeInto_eq hwf hcap junk
    refine ⟨rfl, hm, UInt8.not_lt.mp htype, encoded, henc, ?_⟩
    rw [hun, bytes_ofVals t hfl hid hlen, hm]

/-- A header is encoded into a buffer without any room, which grows on the way, and read back in
four pieces. -/
theorem header_codec_from_nothing :
    ∃ encoded decoded : Buffer, ∃ cuts,
      (⟨1, 2, 3, 4⟩ : HeaderFields).encodeInto ⟨[], 0, 0, 0, 0⟩ (fun _ _ => 0) = .ok encoded ∧
      (⟨0, 0, 0, 0⟩ : HeaderFields).recvAndDecodeInto ⟨[], 0, 0, 0, 0⟩
          { bytes := encoded.unread ++ [7], cuts := [0, 4, 2] } (fun _ => 0) =
        .ok (some (1, ⟨1, 2, 3, 4⟩, decoded, { bytes := [7], cuts := cuts })) := by
  have hwf : WF ⟨[], 0, 0, 0, 0⟩ :=
    ⟨Nat.le_refl 0, Nat.le_refl 0, Nat.le_refl 0, rfl, by decide⟩
  obtain ⟨encoded, henc, -, hdec⟩ := (header_codec_round_trip _ _ hwf hwf (by decide) (by decide)
    (fun _ _ => 0) (fun _ => 0)).1 ⟨1, 2, 3, 4⟩ (by decide)
  obtain ⟨decoded, cuts, hres, -⟩ :=
    hdec ⟨0, 0, 0, 0⟩ { bytes := encoded.unread ++ [7], cuts := [0, 4, 2] } [7] rfl
  exact ⟨encoded, decoded, cuts, henc, hres⟩

end HeaderFields

end ArchNet

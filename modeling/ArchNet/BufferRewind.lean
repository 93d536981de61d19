import ArchNet.Buffer

/-!
# Truncating and Unreading

Two operations of the buffer move an index backwards: `Truncate` the write index, to
`read_index_ + n` when that lies before it, and `UnreadBytes` the read index, by `n`.

Both are sound on a part of their arguments only. The sum that `Truncate` compares with wraps
for the largest `n`, and then lies before the read index. `UnreadBytes` steps back from
wherever the read has left the read index, and a read that drains the buffer leaves it at
the prepend reserve, not behind the bytes that it has returned.

## Main results

* `Buffer.Reachable.wf`: every state reached keeps the representation invariant.
* `Buffer.truncate_iff`: `Truncate(n)` does what its comment says exactly where
  `read_index_ + n` fits a `size_t`.
* `Buffer.unreads_iff`: when `UnreadBytes` gives back what a read has returned.
-/

open Bytes

namespace ArchNet

namespace Buffer

variable {b : Buffer} {junk : ℕ → UInt8}

/-! ### Reachable buffers -/

/-- The **sizes** of a call are sizes of objects in memory. `Skip`, `Next` and the reads of
what is there take any argument; `Truncate` takes those with which its sum does not wrap. -/
def Fits (b : Buffer) : Op → Prop
  | .truncate n => b.readIndex + n < 2 ^ 64
  | .skip _ | .next _ | .nextAll | .readByte | .readInt _ | .reset => True
  | op => b.capacity < 2 ^ 62 ∧ op.size < 2 ^ 62

/-- The states of a buffer: constructed, or reached by operations and by `UnreadBytes`, all of
which passed their assertions. -/
inductive Reachable : Buffer → Prop
  | construct {initialSize reserved : ℕ} {junk : ℕ → UInt8} {b : Buffer}
      (hinitial : initialSize < 2 ^ 64) (hreserved : reserved < 2 ^ 64)
      (h : Buffer.construct initialSize reserved junk = .ok b) : Reachable b
  | step {b b' : Buffer} {op : Op} {junk : ℕ → UInt8} {r : Result} (hb : Reachable b)
      (hfits : b.Fits op) (h : b.step op junk = .ok (b', r)) : Reachable b'
  | unread {b b' : Buffer} {n : ℕ} (hb : Reachable b) (h : b.unreadBytes n = .ok b') :
      Reachable b'

/-- An assertion that fails ends the computation. -/
theorem of_check_bind {α : Type} {a : Assertion} {p : Prop} [Decidable p]
    {f : Unit → Except Assertion α} {x : α} (h : (check a p >>= f) = .ok x) :
    p ∧ f () = .ok x := by
  by_cases hp : p
  · rw [check_ok hp, ok_bind] at h
    exact ⟨hp, h⟩
  · rw [check, if_neg hp] at h
    exact absurd h (by simp [bind, Except.bind])

/-- A computation without a result that has passed, as a step. -/
theorem of_map_ok {x : Except Assertion Buffer} {b' : Buffer} {r : Result}
    (h : (do return (← x, Result.none)) = Except.ok (b', r)) : ∃ b'', x = .ok b'' ∧ b'' = b' := by
  cases x with
  | error e => exact absurd h (by simp [bind, Except.bind])
  | ok b'' => exact ⟨b'', rfl, congrArg Prod.fst (Except.ok.inj h)⟩

/-- The constructor's assertions exclude a capacity that wraps. -/
theorem wf_of_construct {initialSize reserved : ℕ} (hinitial : initialSize < 2 ^ 64)
    (hreserved : reserved < 2 ^ 64) (h : construct initialSize reserved junk = .ok b) : b.WF := by
  rcases Nat.lt_or_ge (reserved + initialSize) (2 ^ 64) with hfits | hwraps
  · obtain ⟨b', hb', hwf, -⟩ := construct_yields hfits junk
    obtain rfl : b' = b := Except.ok.inj (hb'.symm.trans h)
    exact hwf
  · -- The capacity is below the write index, which `WritableBytes()` asserts against.
    have hcap : sizeT (reserved + initialSize) < reserved := by
      rw [sizeT]
      omega
    rw [construct, length, check_ok (le_refl _)] at h
    simp only [writableBytes, bind_assoc] at h
    obtain ⟨-, h⟩ := of_check_bind h
    obtain ⟨hle, -⟩ := of_check_bind h
    exact absurd hle (Nat.not_le.mpr hcap)

/-- `UnreadBytes` moves the read index back. -/
theorem of_unreadBytes {n : ℕ} {b' : Buffer} (h : b.unreadBytes n = .ok b') :
    n < b.readIndex ∧ b' = { b with readIndex := b.readIndex - n } := by
  obtain ⟨hlt, h⟩ := of_check_bind h
  exact ⟨hlt, (Except.ok.inj h).symm⟩

/-- So it keeps the indices in order. -/
theorem WF.unreadBytes (h : b.WF) {n : ℕ} {b' : Buffer} (hb' : b.unreadBytes n = .ok b') :
    b'.WF := by
  obtain ⟨-, rfl⟩ := of_unreadBytes hb'
  exact ⟨(Nat.sub_le _ _).trans h.read_le, h.write_le, h.reserved_le, h.block, h.sized⟩

/-- An operation that has passed its assertions met its preconditions. -/
theorem WF.accepts (h : b.WF) {op : Op} {b' : Buffer} {r : Result}
    (hstep : b.step op junk = .ok (b', r)) : b.Accepts op := by
  cases op with
  | prepend d =>
      obtain ⟨b'', hb'', -⟩ := of_map_ok hstep
      exact (of_check_bind hb'').1
  | prependInt t x =>
      obtain ⟨b'', hb'', -⟩ := of_map_ok hstep
      have hlen := (of_check_bind hb'').1
      rwa [IntType.length_toBytes] at hlen
  | unwriteBytes n =>
      obtain ⟨b'', hb'', -⟩ := of_map_ok hstep
      rw [Buffer.unwriteBytes, h.length_eq, ok_bind] at hb''
      exact (of_check_bind hb'').1
  | writeBytes d =>
      obtain ⟨b'', hb'', -⟩ := of_map_ok hstep
      rw [Buffer.writeBytes, Buffer.writableBytes, fill, check_ok h.write_le] at hb''
      exact (of_check_bind hb'').1
  | readInt t =>
      rw [Buffer.step, Buffer.readInt, peekInt, h.length_eq, ok_bind] at hstep
      simp only [bind_assoc] at hstep
      exact (of_check_bind hstep).1
  | readByte =>
      rw [Buffer.step, Buffer.readByte, h.length_eq, ok_bind] at hstep
      simp only [bind_assoc] at hstep
      exact (of_check_bind hstep).1
  | _ => trivial

/-- An operation that fits keeps the representation invariant. -/
theorem WF.of_step (hb : b.WF) {op : Op} (hfits : b.Fits op) {b' : Buffer} {r : Result}
    (h : b.step op junk = .ok (b', r)) : b'.WF := by
  have hok := hb.accepts h
  -- What is known to succeed with a well-formed buffer has succeeded with this one.
  have hsame : ∀ {b'' : Buffer} {r' : Result}, b.step op junk = .ok (b'', r') → b''.WF → b'.WF := by
    intro b'' r' hstep hwf
    obtain rfl : b'' = b' := congrArg Prod.fst (Except.ok.inj (hstep.symm.trans h))
    exact hwf
  have hsized : b.capacity < 2 ^ 62 ∧ op.size < 2 ^ 62 → b'.WF := by
    rintro ⟨hcap, hsize⟩
    obtain ⟨b'', hstep, hwf, -⟩ := hb.step hcap hsize hok junk
    exact hsame hstep hwf
  cases op with
  | truncate n => exact hsame rfl (hb.truncate_of_lt hfits).1
  | reset => exact hsame rfl hb.reset.1
  | skip len =>
      obtain ⟨b'', hstep, hwf, -⟩ := (hb.skip len).step
      exact hsame hstep hwf
  | next len =>
      obtain ⟨b'', hnext, hwf, -⟩ := hb.next len
      exact hsame (by rw [Buffer.step, hnext, ok_bind]; rfl) hwf
  | nextAll => exact hsame (by rw [Buffer.step, hb.nextAll, ok_bind]; rfl) hb.reset.1
  | readInt t =>
      obtain ⟨b'', hread, hwf, -⟩ := hb.readInt hok
      exact hsame (by rw [Buffer.step, hread, ok_bind]; rfl) hwf
  | readByte =>
      obtain ⟨b'', hread, hwf, -⟩ := hb.readByte hok
      exact hsame (by rw [Buffer.step, hread, ok_bind]; rfl) hwf
  | _ => exact hsized hfits

/-- **Every state reached is well-formed.** -/
theorem Reachable.wf (hb : b.Reachable) : b.WF := by
  induction hb with
  | construct hinitial hreserved h => exact wf_of_construct hinitial hreserved h
  | step _ hfits h ih => exact ih.of_step hfits h
  | unread _ h ih => exact ih.unreadBytes h

/-! ### Truncating -/

/-- What the comment of `Truncate` **promises**: the first bytes stay, nothing happens when
there are no more than that, and the indices stay in order. -/
def KeepsFirst (b : Buffer) (n : ℕ) : Prop :=
  (b.truncate n).unread = b.unread.take (min n b.unread.length) ∧
    (b.unread.length < n → b.truncate n = b) ∧
    (b.truncate n).readIndex ≤ (b.truncate n).writeIndex ∧
    (b.truncate n).writeIndex ≤ (b.truncate n).capacity

/-- A `Truncate` whose sum does not wrap leaves shorter buffers alone. -/
theorem WF.truncate_of_length_lt (h : b.WF) {n : ℕ} (hn : b.readIndex + n < 2 ^ 64)
    (hshort : b.unread.length < n) : b.truncate n = b := by
  have hlen := h.length_unread
  rw [Buffer.truncate, if_neg (by omega), sizeT_eq hn, if_neg (by omega)]

/-- A sum that wraps lies **before the read index**, and the write index is put there. -/
theorem WF.truncate_of_wrap (h : b.WF) {n : ℕ} (hn : n < 2 ^ 64)
    (hwrap : 2 ^ 64 ≤ b.readIndex + n) : (b.truncate n).writeIndex < (b.truncate n).readIndex := by
  obtain ⟨hread, hwrite, -, -, hsized⟩ := h
  have hsum : sizeT (b.readIndex + n) < b.readIndex := by
    rw [sizeT]
    omega
  rw [Buffer.truncate, if_neg (by omega), if_pos (hsum.trans_le hread)]
  exact hsum

/-- **`Truncate(n)` keeps the first bytes exactly where `read_index_ + n` does not wrap.** -/
theorem truncate_iff (hb : b.Reachable) {n : ℕ} (hn : n < 2 ^ 64) :
    b.KeepsFirst n ↔ b.readIndex + n < 2 ^ 64 := by
  have hwf := hb.wf
  constructor
  · rintro ⟨-, -, hread, -⟩
    by_contra hwrap
    exact absurd hread (Nat.not_le.mpr (hwf.truncate_of_wrap hn (Nat.le_of_not_lt hwrap)))
  · intro hfits
    obtain ⟨hwf', hun⟩ := hwf.truncate_of_lt hfits
    refine ⟨?_, hwf.truncate_of_length_lt hfits, hwf'.read_le, hwf'.write_le⟩
    rw [hun, List.take_eq_take_min]

/-- An instance with a reserve of two bytes, and room for one more behind the three unread. -/
def threeBytes : Buffer := ⟨[0, 0, 1, 2, 3, 0], 6, 2, 5, 2⟩

/-- It is constructed and written to. -/
theorem threeBytes_reachable : threeBytes.Reachable := by
  have hnew : Reachable ⟨[0, 0, 0, 0, 0, 0], 6, 2, 2, 2⟩ :=
    @Reachable.construct 4 2 (fun _ => 0) _ (by decide) (by decide) rfl
  exact @Reachable.step _ _ (.write [1, 2, 3]) (fun _ => 0) .none hnew ⟨by decide, by decide⟩ rfl

/-- Two of the three bytes are kept. -/
theorem threeBytes_keepsFirst : threeBytes.KeepsFirst 2 :=
  (truncate_iff threeBytes_reachable (by decide)).mpr (by decide)

/-- Asked to keep the largest number of bytes, it puts the write index before the read index. -/
theorem threeBytes_truncate_max :
    threeBytes.Reachable ∧ (threeBytes.truncate (2 ^ 64 - 1)).writeIndex = 1 ∧
      (threeBytes.truncate (2 ^ 64 - 1)).readIndex = 2 ∧ ¬threeBytes.KeepsFirst (2 ^ 64 - 1) := by
  have hwrite : (threeBytes.truncate (2 ^ 64 - 1)).writeIndex = 1 := by decide +kernel
  have hread : (threeBytes.truncate (2 ^ 64 - 1)).readIndex = 2 := by decide +kernel
  refine ⟨threeBytes_reachable, hwrite, hread, ?_⟩
  rintro ⟨-, -, horder, -⟩
  rw [hwrite, hread] at horder
  exact absurd horder (by decide)

/-! ### Unreading -/

/-- The read operations that return bytes or a typed value. -/
inductive Read
  /-- `Next`, `NextString`. -/
  | next (len : ℕ)
  /-- `NextAll`, `NextAllString`. -/
  | nextAll
  /-- `ReadInt64` … `ReadUInt8`. -/
  | readInt (t : IntType)
  | readByte
  deriving DecidableEq

namespace Read

/-- The read as an operation of the class. -/
def op : Read → Op
  | next len => .next len
  | nextAll => .nextAll
  | readInt t => .readInt t
  | readByte => .readByte

/-- How many bytes the read **asks for** of a buffer with `length` unread ones. -/
def asks (length : ℕ) : Read → ℕ
  | next len => len
  | nextAll => length
  | readInt t => t.size
  | readByte => 1

/-- Whether the read **resets** the indices of a buffer with `length` unread bytes: all that
take the last of them do, except `ReadByte`. -/
def Resets (length : ℕ) : Read → Prop
  | readByte => False
  | r => length ≤ r.asks length

instance (length : ℕ) : (r : Read) → Decidable (r.Resets length)
  | readByte => instDecidableFalse
  | next len => inferInstanceAs (Decidable (length ≤ len))
  | nextAll => inferInstanceAs (Decidable (length ≤ length))
  | readInt t => inferInstanceAs (Decidable (length ≤ t.size))

end Read

/-- The **bytes that a read returns**, or makes its value of. -/
def returned (b : Buffer) (r : Read) : List UInt8 := b.unread.take (r.asks b.unread.length)

/-- What a read **leaves**: indices that start anew, or a read index behind what it took. -/
def afterRead (b : Buffer) (r : Read) : Buffer :=
  if r.Resets b.unread.length then b.reset
  else { b with readIndex := b.readIndex + r.asks b.unread.length }

/-- **`UnreadBytes(k)` after a read gives back the last `k` bytes that it returned.** -/
def Unreads (b : Buffer) (r : Read) (k : ℕ) (junk : ℕ → UInt8) : Prop :=
  ∃ b' result b'', b.step r.op junk = .ok (b', result) ∧ b'.unreadBytes k = .ok b'' ∧
    b''.unread = (b.returned r).drop ((b.returned r).length - k) ++ b'.unread

/-- A read that takes all resets the indices. -/
theorem WF.afterRead_of_resets (h : b.WF) {r : Read}
    (hr : r.Resets (b.writeIndex - b.readIndex)) : b.afterRead r = b.reset := by
  rw [← h.length_unread] at hr
  rw [afterRead, if_pos hr]

/-- One that does not moves the read index. -/
theorem WF.afterRead_of_not_resets (h : b.WF) {r : Read}
    (hr : ¬r.Resets (b.writeIndex - b.readIndex))
    (hle : r.asks (b.writeIndex - b.readIndex) ≤ b.writeIndex - b.readIndex) :
    b.afterRead r =
      { b with readIndex := sizeT (b.readIndex + r.asks (b.writeIndex - b.readIndex)) } := by
  have hlen := h.length_unread
  rw [← hlen] at hr
  rw [h.sizeT_advance hle, afterRead, if_neg hr, hlen]

/-- `Skip` leaves what a read of as many bytes leaves. -/
theorem WF.skip_eq (h : b.WF) (t : IntType) :
    b.skip t.size = .ok (b.afterRead (.readInt t)) := by
  rw [Buffer.skip, h.length_eq, ok_bind]
  by_cases hshort : t.size < b.writeIndex - b.readIndex
  · rw [if_pos hshort, h.afterRead_of_not_resets (r := .readInt t) (Nat.not_le.mpr hshort)
      hshort.le]
    rfl
  · rw [if_neg hshort, h.afterRead_of_resets (r := .readInt t) (Nat.le_of_not_lt hshort)]
    rfl

/-- **A read leaves the indices as `afterRead` says**, when its assertions accept it. -/
theorem WF.read_step (h : b.WF) {r : Read} (hok : b.Accepts r.op) (junk : ℕ → UInt8) :
    ∃ result, b.step r.op junk = .ok (b.afterRead r, result) := by
  cases r with
  | next len =>
      rw [Read.op, Buffer.step, Buffer.next, h.length_eq, ok_bind]
      by_cases hshort : len < b.writeIndex - b.readIndex
      · rw [if_pos hshort, h.afterRead_of_not_resets (r := .next len) (Nat.not_le.mpr hshort)
          hshort.le]
        exact ⟨_, rfl⟩
      · rw [if_neg hshort, h.nextAll,
          h.afterRead_of_resets (r := .next len) (Nat.le_of_not_lt hshort)]
        exact ⟨_, rfl⟩
  | nextAll =>
      rw [Read.op, Buffer.step, h.nextAll, h.afterRead_of_resets (r := .nextAll) (le_refl _)]
      exact ⟨_, rfl⟩
  | readInt t =>
      have hpeek : b.peekInt t = .ok (t.ofBytes (span b.buffer b.readIndex t.size)) := by
        have hsize : t.size ≤ b.writeIndex - b.readIndex := hok
        rw [peekInt, h.length_eq, ok_bind, check_ok hsize]
        rfl
      rw [Read.op, Buffer.step, Buffer.readInt, hpeek, ok_bind, h.skip_eq]
      exact ⟨_, rfl⟩
  | readByte =>
      have hone : 1 ≤ b.writeIndex - b.readIndex := hok
      rw [Read.op, Buffer.step, Buffer.readByte, h.length_eq, ok_bind, check_ok hone, ok_bind,
        if_neg (by omega), h.afterRead_of_not_resets (r := .readByte) id hone]
      exact ⟨_, rfl⟩

/-- Reading does not touch the block. -/
theorem afterRead_buffer (r : Read) : (b.afterRead r).buffer = b.buffer := by
  rw [afterRead]
  split
  · rfl
  · rfl

/-- **The condition** under which the last `k` bytes can be given back: a read that stops
before the end leaves the read index beyond `k`; one that resets leaves it at the reserve,
with room for `k` and one more bytes in front, where the block must happen to hold them. -/
def CanUnread (b : Buffer) (r : Read) (k : ℕ) : Prop :=
  if r.Resets (b.writeIndex - b.readIndex) then
    k < b.reservedPrependSize ∧
      span b.buffer (b.reservedPrependSize - k) k = span b.buffer (b.writeIndex - k) k
  else k < b.readIndex + r.asks (b.writeIndex - b.readIndex)

instance (b : Buffer) (r : Read) (k : ℕ) : Decidable (b.CanUnread r k) := by
  unfold CanUnread
  infer_instance

/-- A read that its assertions accept and that does not reset leaves enough behind. -/
theorem asks_le_of_not_resets {r : Read} (hok : b.Accepts r.op)
    (hr : ¬r.Resets (b.writeIndex - b.readIndex)) :
    r.asks (b.writeIndex - b.readIndex) ≤ b.writeIndex - b.readIndex := by
  cases r with
  | readByte => exact hok
  | next len => exact (Nat.le_of_not_le hr)
  | nextAll => exact le_refl _
  | readInt t => exact (Nat.le_of_not_le hr)

/-- One that resets has asked for everything. -/
theorem asks_ge_of_resets {r : Read} {length : ℕ} (hr : r.Resets length) :
    length ≤ r.asks length := by
  cases r with
  | readByte => exact hr.elim
  | _ => exact hr

/-- The last bytes returned, where they lie in the block. -/
theorem WF.last_returned (h : b.WF) {r : Read} {k m : ℕ} (hk : k ≤ m)
    (hm : m = min (r.asks (b.writeIndex - b.readIndex)) (b.writeIndex - b.readIndex)) :
    (b.returned r).drop (m - k) = span b.buffer (b.readIndex + m - k) k := by
  rw [returned, h.length_unread, unread, take_span, ← hm, drop_span]
  congr 1 <;>
    omega

/-- **Stepping back** over bytes of the block puts them in front of the unread ones. -/
theorem WF.unread_back (h : b.WF) {k : ℕ} (hk : k ≤ b.readIndex) :
    ({ b with readIndex := b.readIndex - k } : Buffer).unread =
      span b.buffer (b.readIndex - k) k ++ b.unread := by
  have hread := h.read_le
  have hsplit := span_append b.buffer (b.readIndex - k) k (b.writeIndex - b.readIndex)
  rw [Nat.sub_add_cancel hk] at hsplit
  rw [unread, unread, hsplit]
  congr 1
  dsimp only
  omega

/-- So what counts is what lies in front of the read index that the read has left. -/
theorem Reachable.unreads_iff_span (hb : b.Reachable) {r : Read} (hok : b.Accepts r.op) {k : ℕ}
    (junk : ℕ → UInt8) :
    b.Unreads r k junk ↔ k < (b.afterRead r).readIndex ∧
      span b.buffer ((b.afterRead r).readIndex - k) k =
        (b.returned r).drop ((b.returned r).length - k) := by
  obtain ⟨result, hstep⟩ := hb.wf.read_step hok junk
  have hwf : (b.afterRead r).WF := by
    refine hb.wf.of_step ?_ hstep
    cases r with
    | _ => trivial
  constructor
  · rintro ⟨b', result', b'', hstep', hback, hun⟩
    obtain rfl : b.afterRead r = b' := congrArg Prod.fst (Except.ok.inj (hstep.symm.trans hstep'))
    obtain ⟨hlt, rfl⟩ := of_unreadBytes hback
    rw [hwf.unread_back hlt.le, afterRead_buffer] at hun
    exact ⟨hlt, List.append_cancel_right hun⟩
  · rintro ⟨hlt, hspan⟩
    refine ⟨_, result, { b.afterRead r with readIndex := (b.afterRead r).readIndex - k }, hstep,
      ?_, ?_⟩
    · rw [Buffer.unreadBytes, check_ok hlt]
      rfl
    · rw [hwf.unread_back hlt.le, afterRead_buffer, hspan]

/-- **`UnreadBytes` gives back what was read exactly under that condition.** -/
theorem unreads_iff (hb : b.Reachable) {r : Read} (hok : b.Accepts r.op) {k : ℕ}
    (hk : k ≤ (b.returned r).length) (junk : ℕ → UInt8) :
    b.Unreads r k junk ↔ b.CanUnread r k := by
  have hwf := hb.wf
  have hread := hwf.read_le
  have hlen : (b.returned r).length =
      min (r.asks (b.writeIndex - b.readIndex)) (b.writeIndex - b.readIndex) := by
    rw [returned, List.length_take, hwf.length_unread]
  rw [hlen] at hk
  rw [hb.unreads_iff_span hok, hlen, hwf.last_returned hk rfl, CanUnread]
  by_cases hr : r.Resets (b.writeIndex - b.readIndex)
  · have hall := asks_ge_of_resets hr
    rw [if_pos hr, hwf.afterRead_of_resets hr, Nat.min_eq_right hall, Nat.add_sub_cancel' hread]
    exact Iff.rfl
  · have hle := asks_le_of_not_resets hok hr
    rw [if_neg hr, hwf.afterRead_of_not_resets hr hle, hwf.sizeT_advance hle, Nat.min_eq_left hle]
    exact and_iff_left rfl

/-- Of three bytes, one is read and given back. -/
theorem threeBytes_unreads : threeBytes.Unreads (.next 1) 1 (fun _ => 0) :=
  (unreads_iff threeBytes_reachable (r := .next 1) trivial (k := 1) (by decide) _).mpr (by decide)

/-- **Three bytes are read and one is taken back**: what comes is a byte of the reserve. -/
theorem threeBytes_unreads_reserve :
    ∃ b' b'' : Buffer, threeBytes.Reachable ∧
      threeBytes.next 3 = .ok (b', [1, 2, 3]) ∧ b'.unreadBytes 1 = .ok b'' ∧ b''.unread = [0] ∧
      ¬threeBytes.Unreads (.next 3) 1 (fun _ => 0) := by
  refine ⟨⟨[0, 0, 1, 2, 3, 0], 6, 2, 2, 2⟩, ⟨[0, 0, 1, 2, 3, 0], 6, 1, 2, 2⟩,
    threeBytes_reachable, rfl, rfl, rfl, ?_⟩
  intro h
  obtain ⟨-, hspan⟩ := (threeBytes_reachable.unreads_iff_span (r := .next 3) trivial _).mp h
  exact absurd hspan (by decide)

end Buffer

end ArchNet

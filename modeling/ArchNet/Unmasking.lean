import ArchNet.FrameRoundTrip

/-!
# Unmasking the Fragments of a Message

`recv_loop` reads the payloads of a message's fragments one after the other into the same
buffer. `read_frame_data`, the same code in `coin` and in `robin`, appends the bytes that came
over the wire, but its unmasking loop starts at `data()[0]`: from the second fragment on it runs
over the bytes that were there before, with the key of the fragment that has just arrived.

## Conventions

* A `MaskedFragment` is a masked data frame as it reaches `read_frame_data`: the header that has
  been read, the payload that the peer masked, and the stream that stands at the masked bytes,
  under any segmentation.
* `readFragments` reads fragments into one buffer and stops at a read that fails, as
  `recv_loop` does.

## Main results

* `xorMask_append_iff`: unmasking from the front gives back an appended payload exactly when
  the key has no bit set in the bytes that it uses.
* `readFragments_iff`: **when the fragments come out as they were sent** — every payload can be
  counted by an `int`, and every key but the first is idle.
-/

namespace ArchNet

open Bytes

/-! ### A key that changes nothing -/

/-- The byte of the key for position `i`. -/
def keyByte (key : List UInt8) (i : ℕ) : UInt8 := key.getD (i % 4) 0

/-- A key is **idle** over `n` bytes when all the bytes that it uses on them are zero. -/
def IdleKey (key : List UInt8) (n : ℕ) : Prop := ∀ i < n, keyByte key i = 0

instance (key : List UInt8) (n : ℕ) : Decidable (IdleKey key n) :=
  inferInstanceAs (Decidable (∀ i < n, keyByte key i = 0))

theorem getElem?_xorMask (key : List UInt8) (n : ℕ) (l : List UInt8) (i : ℕ) :
    (xorMask key n l)[i]? = l[i]?.map fun b => if i < n then b ^^^ keyByte key i else b := by
  rw [xorMask, List.getElem?_mapIdx]
  rfl

/-- An idle key leaves every buffer as it is. -/
theorem IdleKey.xorMask_eq {key : List UInt8} {n : ℕ} (h : IdleKey key n) (l : List UInt8) :
    xorMask key n l = l := by
  refine List.ext_getElem? fun i => ?_
  have hbyte : ∀ b : UInt8, (if i < n then b ^^^ keyByte key i else b) = b := by
    intro b
    split_ifs with hin
    · rw [h i hin, UInt8.xor_zero]
    · rfl
  rw [getElem?_xorMask, funext hbyte]
  exact Option.map_id_apply

/-- A byte is its own mask only under zero. -/
theorem xor_eq_left_iff {a b : UInt8} : a ^^^ b = a ↔ b = 0 := by
  constructor
  · intro h
    have hx := congrArg (a ^^^ ·) h
    simpa only [← UInt8.xor_assoc, UInt8.xor_self, UInt8.zero_xor] using hx
  · rintro rfl
    exact UInt8.xor_zero

/-- If every byte of a key that is used at an offset is the one used `shift` places further on,
and zero where there is none, the key is idle. -/
theorem idleKey_of_shift {key : List UInt8} {n shift : ℕ} (hshift : 0 < shift)
    (h : ∀ i < n, keyByte key i = if shift + i < n then keyByte key (shift + i) else 0) :
    IdleKey key n := by
  -- the induction is on how far the offset lies before the end
  have hback : ∀ m i, n - i ≤ m → i < n → keyByte key i = 0 := by
    intro m
    induction m with
    | zero => omega
    | succ m ih =>
        intro i hm hi
        rw [h i hi]
        split_ifs with hlt
        · exact ih (shift + i) (by omega) hlt
        · rfl
  exact fun i hi => hback n i (by omega) hi

/-- **Unmasking from the front.** What was in the buffer and the appended payload come out as
wanted exactly when the key is idle and the buffer was as wanted before. -/
theorem xorMask_append_iff {key buffer wanted payload : List UInt8} (hne : buffer ≠ [])
    (hlen : buffer.length = wanted.length) :
    xorMask key payload.length (buffer ++ xorMask key payload.length payload) =
        wanted ++ payload ↔
      IdleKey key payload.length ∧ buffer = wanted := by
  constructor
  · intro heq
    have hidle : IdleKey key payload.length := by
      refine idleKey_of_shift (List.length_pos_iff.mpr hne) fun i hi => ?_
      -- the byte at offset `i` of the payload is masked by the peer and unmasked one shift on
      have hbyte := congrArg (·[buffer.length + i]?) heq
      rw [hlen, List.getElem?_append_right (by omega), ← hlen, getElem?_xorMask,
        List.getElem?_append_right (by omega), Nat.add_sub_cancel_left, getElem?_xorMask,
        List.getElem?_eq_getElem hi, Option.map_some, Option.map_some, Option.some.injEq,
        if_pos hi] at hbyte
      split_ifs at hbyte ⊢ with hin
      · rw [UInt8.xor_assoc, xor_eq_left_iff] at hbyte
        have hx := congrArg (· ^^^ keyByte key (buffer.length + i)) hbyte
        simpa only [UInt8.xor_assoc, UInt8.xor_self, UInt8.xor_zero, UInt8.zero_xor] using hx
      · exact xor_eq_left_iff.mp hbyte
    refine ⟨hidle, ?_⟩
    rw [hidle.xorMask_eq, hidle.xorMask_eq] at heq
    exact (List.append_inj heq hlen).1
  · rintro ⟨hidle, rfl⟩
    rw [hidle.xorMask_eq, hidle.xorMask_eq]

/-! ### The fragments of a message -/

/-- A **fragment** at the moment its payload is read. -/
structure MaskedFragment where
  head : FrameHeader
  payload : List UInt8
  src : Source
  masked : head.mask = true
  key_length : head.maskingKey.length = 4
  payload_ne : payload ≠ []
  payload_lt : payload.length < 2 ^ 64
  len_eq : head.payloadLen = payload.length
  there : xorMask head.maskingKey payload.length payload <+: src.bytes

/-- The reads of `recv_loop`, one for each fragment, into one buffer; `none` when a read blocks
or fails. -/
def readFragments : List MaskedFragment → List UInt8 → Option (List UInt8)
  | [], buffer => some buffer
  | f :: fs, buffer => do
      let (ret, buffer, _) ← readFrameData f.head buffer f.src
      if ret ≤ 0 then none else readFragments fs buffer

namespace MaskedFragment

/-- The payload's length can be counted by the `int` that `read_frame_data` returns. -/
def Counted (f : MaskedFragment) : Prop := f.payload.length < 2 ^ 31

/-- The key does not change a byte of its payload. -/
def Idle (f : MaskedFragment) : Prop := IdleKey f.head.maskingKey f.payload.length

theorem length_pos (f : MaskedFragment) : 0 < f.payload.length :=
  List.length_pos_iff.mpr f.payload_ne

/-- The masked payload waits at the front of the stream. -/
theorem take_src (f : MaskedFragment) :
    f.src.bytes.take f.payload.length = xorMask f.head.maskingKey f.payload.length f.payload := by
  obtain ⟨rest, hrest⟩ := f.there
  rw [← hrest]
  exact List.take_left' (length_xorMask ..)

theorem length_le_src (f : MaskedFragment) : f.payload.length ≤ f.src.bytes.length :=
  (length_xorMask ..).symm.le.trans f.there.length_le

end MaskedFragment

/-- One read in front of the rest, when the payload can be counted. -/
theorem readFragments_cons {f : MaskedFragment} (hf : f.Counted) (fs : List MaskedFragment)
    (buffer : List UInt8) :
    readFragments (f :: fs) buffer =
      readFragments fs (xorMask f.head.maskingKey f.payload.length
        (buffer ++ xorMask f.head.maskingKey f.payload.length f.payload)) := by
  have hint : f.payload.length < 2 ^ 31 := hf
  have hpos := f.length_pos
  have hn : f.head.payloadLen % 2 ^ 32 = f.payload.length := by
    rw [f.len_eq]
    omega
  obtain ⟨cuts, -, hread⟩ := readFrameData_eq hn hpos buffer f.length_le_src
  have hnot : ¬ asInt f.payload.length ≤ 0 := by
    rw [asInt_le_zero_iff hpos (by omega)]
    omega
  simp only [readFragments, hread, Option.bind_eq_bind, Option.bind_some, if_neg hnot, unmask,
    f.masked, if_true, f.take_src]

/-- What a read leaves in the buffer when it does not fail is no longer than what was there
and the payload; and it is shorter when the payload cannot be counted. -/
theorem readFragments_cons_some {f : MaskedFragment} {fs : List MaskedFragment}
    {buffer got : List UInt8} (h : readFragments (f :: fs) buffer = some got) :
    ∃ buffer', readFragments fs buffer' = some got ∧
      buffer'.length ≤ buffer.length + f.payload.length ∧
      (¬ f.Counted → buffer'.length < buffer.length + f.payload.length) := by
  have hpos := f.length_pos
  by_cases hf : f.Counted
  · rw [readFragments_cons hf] at h
    exact ⟨_, h, by simp, fun hnot => absurd hf hnot⟩
  have hbig : ¬ f.payload.length < 2 ^ 31 := hf
  have hsrc := f.length_le_src
  by_cases h0 : f.head.payloadLen % 2 ^ 32 = 0
  · simp [readFragments, readFrameData_zero h0] at h
  have hmod := Nat.mod_le f.head.payloadLen (2 ^ 32)
  rw [f.len_eq] at hmod h0
  obtain ⟨cuts, -, hread⟩ := readFrameData_eq (congrArg (· % 2 ^ 32) f.len_eq) (by omega) buffer
    (le_trans hmod hsrc)
  simp only [readFragments, hread, Option.bind_eq_bind, Option.bind_some, unmask, f.masked,
    if_true] at h
  split_ifs at h with hle
  -- the length has wrapped: fewer bytes are read than the payload has
  have hwrap : f.payload.length % 2 ^ 32 < f.payload.length := by
    rw [asInt_le_zero_iff (by omega) (by omega)] at hle
    omega
  refine ⟨_, h, ?_, fun _ => ?_⟩
  all_goals
    rw [length_xorMask, List.length_append, List.length_take]
    omega

/-- No read appends more than its payload. -/
theorem length_readFragments_le {fs : List MaskedFragment} {buffer got : List UInt8}
    (h : readFragments fs buffer = some got) :
    got.length ≤ buffer.length + (fs.map MaskedFragment.payload).flatten.length := by
  induction fs generalizing buffer with
  | nil =>
      obtain rfl := Option.some.inj h
      simp
  | cons f fs ih =>
      obtain ⟨buffer', hrest, hle, -⟩ := readFragments_cons_some h
      have := ih hrest
      rw [List.map_cons, List.flatten_cons, List.length_append]
      omega

/-- A payload that cannot be counted does not come out. -/
theorem counted_of_readFragments {f : MaskedFragment} {fs : List MaskedFragment}
    {buffer wanted : List UInt8} (hlen : buffer.length = wanted.length)
    (h : readFragments (f :: fs) buffer =
      some (wanted ++ ((f :: fs).map MaskedFragment.payload).flatten)) : f.Counted := by
  by_contra hf
  obtain ⟨buffer', hrest, -, hlt⟩ := readFragments_cons_some h
  have hle := length_readFragments_le hrest
  have hlt := hlt hf
  rw [List.map_cons, List.flatten_cons, List.length_append, List.length_append] at hle
  omega

/-- **The fragments behind the first.** With something in the buffer, they come out as they were
sent, behind what was wanted there, exactly when every payload can be counted and every key is
idle. -/
theorem readFragments_append_iff (fs : List MaskedFragment) {buffer wanted : List UInt8}
    (hne : buffer ≠ []) (hlen : buffer.length = wanted.length) :
    readFragments fs buffer = some (wanted ++ (fs.map MaskedFragment.payload).flatten) ↔
      (∀ f ∈ fs, f.Counted ∧ f.Idle) ∧ buffer = wanted := by
  induction fs generalizing buffer wanted with
  | nil => simp [readFragments]
  | cons f fs ih =>
      by_cases hf : f.Counted
      · have hne' : xorMask f.head.maskingKey f.payload.length
            (buffer ++ xorMask f.head.maskingKey f.payload.length f.payload) ≠ [] := by
          rw [← List.length_pos_iff, length_xorMask, List.length_append]
          have := List.length_pos_iff.mpr hne
          omega
        have hlen' : (xorMask f.head.maskingKey f.payload.length
            (buffer ++ xorMask f.head.maskingKey f.payload.length f.payload)).length =
              (wanted ++ f.payload).length := by
          simp [hlen]
        have hstep := ih hne' hlen'
        rw [readFragments_cons hf, List.map_cons, List.flatten_cons, ← List.append_assoc, hstep,
          xorMask_append_iff hne hlen, List.forall_mem_cons]
        simp only [hf, true_and, MaskedFragment.Idle]
        tauto
      · refine iff_of_false (fun h => hf (counted_of_readFragments hlen h)) ?_
        exact fun h => hf (h.1 f List.mem_cons_self).1

/-- **When the fragments of a message come out as they were sent**: exactly when the length of
every payload can be counted by an `int` and, from the second fragment on, every key is zero in
the bytes that it uses. -/
theorem readFragments_iff (fs : List MaskedFragment) :
    readFragments fs [] = some (fs.map MaskedFragment.payload).flatten ↔
      (∀ f ∈ fs, f.Counted) ∧ ∀ f ∈ fs.tail, f.Idle := by
  cases fs with
  | nil => simp [readFragments]
  | cons f fs =>
      by_cases hf : f.Counted
      · have hiff := readFragments_append_iff fs f.payload_ne rfl
        rw [readFragments_cons hf, List.nil_append, xorMask_xorMask, List.map_cons,
          List.flatten_cons, hiff, List.forall_mem_cons, List.tail_cons]
        simp only [hf, true_and, and_true]
        exact forall₂_and
      · refine iff_of_false (fun h => hf ?_) fun h => hf (h.1 f List.mem_cons_self)
        exact @counted_of_readFragments f fs [] [] rfl h

/-- Two fragments of one byte each, 7 and 8, under the same key: the second read masks the
first byte again and leaves its own as it came. -/
theorem readFragments_garbled :
    ∃ f g : MaskedFragment, f.payload = [7] ∧ g.payload = [8] ∧
      f.head.maskingKey = [15, 0, 0, 0] ∧ g.head.maskingKey = [15, 0, 0, 0] ∧
      readFragments [f, g] [] = some [8, 7] := by
  let fragment (fin : Bool) (opcode : Opcode) (wire : UInt8) : FrameHeader × Source :=
    ({ FrameHeader.reset with
        fin := fin, opcode := opcode, mask := true, payloadLen := 1, maskingKey := [15, 0, 0, 0] },
      { bytes := [wire] })
  let f : MaskedFragment := ⟨(fragment false .text 8).1, [7], (fragment false .text 8).2,
    rfl, rfl, by decide, by decide, rfl, by decide⟩
  let g : MaskedFragment := ⟨(fragment true .continuation 7).1, [8],
    (fragment true .continuation 7).2, rfl, rfl, by decide, by decide, rfl, by decide⟩
  exact ⟨f, g, rfl, rfl, rfl, rfl, by decide⟩

end ArchNet

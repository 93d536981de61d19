import ArchNet.HostPort
import ArchNet.HttpQuery

/-!
# The URL Codec

`url_encode` and `url_decode` of `utils/util.h`, which write through a pointer into a text of a size
that is set before, and return the whole text.

## Conventions

* A pointer into the text is the text and an index. `none` stands for a write outside of it; a NUL
  may be written behind its end.
* The `ctype` functions are those of the `C` locale.

## Main results

* `url_codec`: **no text makes the round trip**, since the texts are as long as they were made; what
  stands before the first NUL does.
-/

open Bytes

namespace ArchNet.Util

open Routing (Text cstr)
open Net (isdigit)
open HttpClient (toLower)
open HttpQuery (isAlnum)

/-! ### The code -/

/-- A `char`. -/
def signedChar (c : UInt8) : ℤ := if c < 128 then c.toNat else (c.toNat : ℤ) - 256

/-- `from_hex(ch)`. -/
def fromHex (ch : UInt8) : UInt8 := if isdigit ch then ch - 48 else toLower ch - 97 + 10

/-- `to_hex(code)`. -/
def toHex (code : ℤ) : UInt8 := (ascii "0123456789abcdef").getD (code % 16).toNat 0

/-- `*pbuf++ = c`, and what is left of the text. -/
def put (out : Text × ℕ) (c : UInt8) : Option (Text × ℕ) :=
  if out.2 < out.1.length then some (out.1.set out.2 c, out.2 + 1)
  else if out.2 = out.1.length ∧ c = 0 then some (out.1, out.2 + 1)
  else none

/-- What `url_encode` writes for a character. -/
def encodeChar (c : UInt8) : Text :=
  if isAlnum c || c = 45 || c = 95 || c = 46 || c = 126 then [c]
  else if c = 32 then [43]
  else [37, toHex (signedChar c / 16), toHex (signedChar c % 16)]

/-- The loop of `url_encode`. -/
def encodeLoop : Text → Text × ℕ → Option (Text × ℕ)
  | [], out => some out
  | c :: s, out =>
      if c = 0 then some out else ((encodeChar c).foldlM put out).bind (encodeLoop s)

/-- `url_encode(str)`. -/
def urlEncode (str : Text) : Option Text := do
  let out ← encodeLoop str (List.replicate (str.length * 3 + 1) 0, 0)
  let out ← put out 0
  return out.1

/-- The loop of `url_decode`; an escape that is cut off loses its percent sign. -/
def decodeLoop : Text → Text × ℕ → Option (Text × ℕ)
  | [], out => some out
  | c :: s, out =>
      if c = 0 then some out
      else if c = 37 then
        match s with
        | h :: l :: rest =>
            if h ≠ 0 ∧ l ≠ 0 then
              (put out (fromHex h <<< 4 ||| fromHex l)).bind fun out => decodeLoop rest out
            else decodeLoop (h :: l :: rest) out
        | s => decodeLoop s out
      else (put out (if c = 43 then 32 else c)).bind fun out => decodeLoop s out

/-- `url_decode(str)`. -/
def urlDecode (str : Text) : Option Text := do
  let out ← decodeLoop str (List.replicate str.length 0, 0)
  let out ← put out 0
  return out.1

/-! ### The form of an encoded text -/

/-- A digit of an escape. -/
def isHex (c : UInt8) : Bool := isdigit c || (97 ≤ c && c ≤ 102) || (65 ≤ c && c ≤ 70)

/-- A character that stands for itself, or a plus sign. -/
def isPlain (c : UInt8) : Bool := isAlnum c || [45, 95, 46, 126, 43].contains c

/-- A text of plain characters and of **escapes**. -/
inductive IsUrlText : Text → Prop
  | nil : IsUrlText []
  | plain {c : UInt8} {s : Text} (hc : isPlain c = true) (hs : IsUrlText s) : IsUrlText (c :: s)
  | escape {h l : UInt8} {s : Text} (hh : isHex h = true) (hl : isHex l = true) (hs : IsUrlText s) :
      IsUrlText (37 :: h :: l :: s)

/-- The text **makes the round trip**, in a text of the form. -/
def RoundTrips (s : Text) : Prop :=
  ∃ t, urlEncode s = some t ∧ IsUrlText t ∧ urlDecode t = some s

/-! ### Writing -/

section Writing

variable {s t w : Text} {c : UInt8} {k pos : ℕ} {out out' : Text × ℕ}

/-- A text that has been written up to an index, and is zero from there on. -/
def written (w : Text) (k : ℕ) : Text × ℕ := (w ++ List.replicate k 0, w.length)

/-- A character is put behind those written, while there is room. -/
theorem put_written (w : Text) (k : ℕ) (c : UInt8) :
    put (written w (k + 1)) c = some (written (w ++ [c]) k) := by
  rw [put, written, if_pos (by simp), written]
  simp [List.replicate_succ]

/-- Writing **does not change the size** of a text. -/
theorem length_put (h : put out c = some out') : out'.1.length = out.1.length := by
  rw [put] at h
  split_ifs at h
  · obtain rfl := Option.some.inj h
    exact List.length_set
  · obtain rfl := Option.some.inj h
    rfl

/-- A text is put behind those written, while there is room. -/
theorem foldlM_put_written (l w : Text) (k : ℕ) :
    l.foldlM put (written w (k + l.length)) = some (written (w ++ l) k) := by
  induction l generalizing w with
  | nil => simp
  | cons c l ih =>
      rw [List.foldlM_cons, List.length_cons, ← Nat.add_assoc, put_written, Option.bind_eq_bind,
        Option.bind_some, ih, List.append_assoc, List.singleton_append]

/-- The NUL at the end changes nothing. -/
theorem put_zero_written (w : Text) (k : ℕ) :
    (put (written w k) 0).map Prod.fst = some (written w k).1 := by
  cases k with
  | zero => rw [put, written, if_neg (by simp), if_pos (by simp), Option.map_some]
  | succ k =>
      rw [put_written, Option.map_some, written, written, List.append_assoc]
      rfl

end Writing

/-! ### The round trip -/

section RoundTrip

variable {s t w : Text} {c : UInt8} {k : ℕ} {out out' : Text × ℕ}

/-- The digits of an escape. -/
def highDigit (c : UInt8) : UInt8 := toHex (signedChar c / 16)

/-- The digits of an escape. -/
def lowDigit (c : UInt8) : UInt8 := toHex (signedChar c % 16)

/-- A remainder that is not negative. -/
theorem toHex_eq (code : ℤ) {n : ℕ} (h : code % 16 = n) :
    toHex code = (ascii "0123456789abcdef").getD n 0 := by
  rw [toHex, h, Int.toNat_natCast]

/-- The upper digit is that of the upper four bits. -/
theorem highDigit_eq (c : UInt8) :
    highDigit c = (ascii "0123456789abcdef").getD (c.toNat / 16) 0 := by
  have hc := c.toNat_lt
  refine toHex_eq _ ?_
  rw [signedChar]
  split_ifs <;> omega

/-- The lower digit is that of the lower four bits. -/
theorem lowDigit_eq (c : UInt8) :
    lowDigit c = (ascii "0123456789abcdef").getD (c.toNat % 16) 0 := by
  have hc := c.toNat_lt
  refine toHex_eq _ ?_
  rw [signedChar]
  split_ifs <;> omega

/-- The digits of a nibble. -/
theorem digit_spec : ∀ n < 16, isHex ((ascii "0123456789abcdef").getD n 0) = true ∧
    (ascii "0123456789abcdef").getD n 0 ≠ 0 ∧
    fromHex ((ascii "0123456789abcdef").getD n 0) = UInt8.ofNat n := by
  rw [ascii, String.toList_ofList]
  decide

/-- **The digits give the byte back**, in spite of its sign. -/
theorem digits_spec (c : UInt8) : isHex (highDigit c) = true ∧ isHex (lowDigit c) = true ∧
    highDigit c ≠ 0 ∧ lowDigit c ≠ 0 ∧
      fromHex (highDigit c) <<< 4 ||| fromHex (lowDigit c) = c := by
  have hc := c.toNat_lt
  obtain ⟨hhigh, hhigh₀, hhigh₁⟩ := digit_spec (c.toNat / 16) (by omega)
  obtain ⟨hlow, hlow₀, hlow₁⟩ := digit_spec (c.toNat % 16) (by omega)
  rw [highDigit_eq, lowDigit_eq]
  refine ⟨hhigh, hlow, hhigh₀, hlow₀, ?_⟩
  have hshift : (UInt8.ofNat (c.toNat / 16) <<< 4).toNat = (c.toNat / 16) <<< 4 := by
    rw [UInt8.toNat_shiftLeft, UInt8.toNat_ofNat', Nat.shiftLeft_eq, Nat.shiftLeft_eq]
    change c.toNat / 16 % 2 ^ 8 * 2 ^ 4 % 2 ^ 8 = c.toNat / 16 * 2 ^ 4
    omega
  rw [hhigh₁, hlow₁, ← UInt8.toNat_inj, UInt8.toNat_or, hshift, UInt8.toNat_ofNat',
    Nat.mod_eq_of_lt (by omega : c.toNat % 16 < 2 ^ 8), ← Nat.shiftLeft_add_eq_or_of_lt (by omega),
    Nat.shiftLeft_eq]
  omega

/-- A character is plain, a blank, or escaped. -/
theorem encodeChar_cases (c : UInt8) (h : c ≠ 0) :
    (encodeChar c = [c] ∧ isPlain c = true ∧ c ≠ 37 ∧ c ≠ 43) ∨ (encodeChar c = [43] ∧ c = 32) ∨
      encodeChar c = [37, highDigit c, lowDigit c] := by
  rw [encodeChar]
  split_ifs with hplain hblank
  · refine .inl ⟨rfl, ?_, ?_, ?_⟩
    · simp only [isPlain, Bool.or_eq_true, decide_eq_true_eq] at hplain ⊢
      rcases hplain with (((hplain | rfl) | rfl) | rfl) | rfl
      · exact .inl hplain
      all_goals exact .inr rfl
    · rintro rfl
      exact absurd hplain (by decide)
    · rintro rfl
      exact absurd hplain (by decide)
  · exact .inr (.inl ⟨rfl, hblank⟩)
  · exact .inr (.inr rfl)

/-- The text in front of the padding. -/
def encoded (s : Text) : Text := (cstr s).flatMap encodeChar

/-- A character is encoded to three at most. -/
theorem length_encodeChar_le (c : UInt8) : (encodeChar c).length ≤ 3 := by
  rw [encodeChar]
  split_ifs <;> simp

/-- NUL ends the text. -/
theorem encoded_zero (s : Text) : encoded (0 :: s) = [] := by
  simp [encoded, cstr]

/-- Any other character is encoded, and the rest behind it. -/
theorem encoded_cons (hc : c ≠ 0) (s : Text) : encoded (c :: s) = encodeChar c ++ encoded s := by
  simp [encoded, cstr, hc]

/-- The buffer of three times the length is large enough. -/
theorem length_encoded_le (s : Text) : (encoded s).length ≤ s.length * 3 := by
  induction s with
  | nil => exact le_rfl
  | cons c s ih =>
      by_cases hc : c = 0
      · rw [hc, encoded_zero]
        exact Nat.zero_le _
      · have hle := length_encodeChar_le c
        rw [encoded_cons hc, List.length_append, List.length_cons]
        omega

/-- **The loop writes the encoding** where there is room. -/
theorem encodeLoop_written (s w : Text) (k : ℕ) :
    encodeLoop s (written w (k + (encoded s).length)) = some (written (w ++ encoded s) k) := by
  induction s generalizing w with
  | nil => simp [encodeLoop, encoded, cstr]
  | cons c s ih =>
      by_cases hc : c = 0
      · rw [encodeLoop, if_pos hc, hc, encoded_zero, List.length_nil, List.append_nil, Nat.add_zero]
      · have hlength : k + (encodeChar c ++ encoded s).length =
            k + (encoded s).length + (encodeChar c).length := by
          rw [List.length_append]
          omega
        rw [encodeLoop, if_neg hc, encoded_cons hc, hlength, foldlM_put_written, Option.bind_some,
          ih, List.append_assoc]

/-- **An encoded text**, with the padding up to its size. -/
theorem urlEncode_eq (s : Text) : urlEncode s =
    some (encoded s ++ List.replicate (s.length * 3 + 1 - (encoded s).length) 0) := by
  have hle := length_encoded_le s
  obtain ⟨k, hk⟩ := Nat.exists_eq_add_of_le' (hle.trans (Nat.le_succ _))
  have hloop := encodeLoop_written s [] k
  have hend := put_zero_written ([] ++ encoded s) k
  obtain ⟨out, hout, hfst⟩ := Option.map_eq_some_iff.mp hend
  have hstart : ((List.replicate (s.length * 3 + 1) 0, 0) : Text × ℕ) =
      written [] (k + (encoded s).length) := by
    rw [← hk]
    rfl
  rw [urlEncode, hstart, hloop, Option.bind_eq_bind, Option.bind_some, hout]
  refine congrArg some (hfst.trans ?_)
  rw [← Nat.succ_eq_add_one, hk, Nat.add_sub_cancel]
  rfl

/-- A character is decoded **as it was**. -/
theorem decodeLoop_encodeChar (hc : c ≠ 0) (t w : Text) (k : ℕ) :
    decodeLoop (encodeChar c ++ t) (written w (k + 1)) = decodeLoop t (written (w ++ [c]) k) := by
  rcases encodeChar_cases c hc with ⟨henc, -, h37, h43⟩ | ⟨henc, rfl⟩ | henc
  · rw [henc, List.singleton_append, decodeLoop.eq_def]
    simp only [hc, h37, h43, if_false, put_written, Option.bind_some]
  · rw [henc, List.singleton_append, decodeLoop.eq_def]
    simp [put_written]
  · obtain ⟨-, -, hhigh, hlow, hvalue⟩ := digits_spec c
    rw [henc, decodeLoop.eq_def]
    simp [hhigh, hlow, hvalue, put_written]

/-- **Decoding inverts encoding** up to the padding. -/
theorem decodeLoop_encoded (h : (0 : UInt8) ∉ s) (w : Text) (k n : ℕ) :
    decodeLoop (encoded s ++ List.replicate n 0) (written w (k + s.length)) =
      some (written (w ++ s) k) := by
  induction s generalizing w with
  | nil =>
      rw [encoded, cstr, List.takeWhile_nil, List.flatMap_nil, List.nil_append, List.append_nil]
      cases n with
      | zero => rfl
      | succ n =>
          rw [List.replicate_succ, decodeLoop.eq_def]
          exact if_pos rfl
  | cons c s ih =>
      have hc : c ≠ 0 := fun heq => h (heq ▸ List.mem_cons_self)
      rw [encoded_cons hc, List.append_assoc, List.length_cons, ← Nat.add_assoc,
        decodeLoop_encodeChar hc, ih (fun hmem => h (List.mem_cons_of_mem _ hmem)),
        List.append_assoc, List.singleton_append]

/-- Decoding does not change the size of a text. -/
theorem length_decodeLoop (h : decodeLoop t out = some out') : out'.1.length = out.1.length := by
  fun_induction decodeLoop t out with
  | case1 out =>
      obtain rfl := Option.some.inj h
      rfl
  | case2 out s =>
      obtain rfl := Option.some.inj h
      rfl
  | case3 out _ hi lo rest hdigits ih =>
      obtain ⟨next, hput, hrest⟩ := Option.bind_eq_some_iff.mp h
      exact (ih next hrest).trans (length_put hput)
  | case4 out _ hi lo rest hdigits ih => exact ih h
  | case5 out s _ hshort ih => exact ih h
  | case6 out c s hzero hpercent ih =>
      obtain ⟨next, hput, hrest⟩ := Option.bind_eq_some_iff.mp h
      exact (ih next hrest).trans (length_put hput)

/-- **A decoded text is as long** as the one that is decoded. -/
theorem length_urlDecode (h : urlDecode t = some s) : s.length = t.length := by
  obtain ⟨out, hloop, h⟩ := Option.bind_eq_some_iff.mp h
  obtain ⟨out', hput, h⟩ := Option.bind_eq_some_iff.mp h
  obtain rfl := Option.some.inj h
  rw [length_put hput, length_decodeLoop hloop, List.length_replicate]

/-- What is written is safe in a URL. -/
theorem isUrlText_encoded (s : Text) : IsUrlText (encoded s) := by
  induction s with
  | nil => exact .nil
  | cons c s ih =>
      by_cases hc : c = 0
      · rw [hc, encoded_zero]
        exact .nil
      · rw [encoded_cons hc]
        rcases encodeChar_cases c hc with ⟨henc, hplain, -⟩ | ⟨henc, -⟩ | henc
        · rw [henc]
          exact .plain hplain ih
        · rw [henc]
          exact .plain (by decide) ih
        · obtain ⟨hhigh, hlow, -⟩ := digits_spec c
          rw [henc]
          exact .escape hhigh hlow ih

/-- It has no NUL. -/
theorem not_mem_of_isUrlText (h : IsUrlText t) : (0 : UInt8) ∉ t := by
  induction h with
  | nil => exact List.not_mem_nil
  | plain hc hs ih =>
      refine List.not_mem_cons_of_ne_of_not_mem ?_ ih
      rintro rfl
      exact absurd hc (by decide)
  | escape hh hl hs ih =>
      refine List.not_mem_cons_of_ne_of_not_mem (by decide)
        (List.not_mem_cons_of_ne_of_not_mem ?_ (List.not_mem_cons_of_ne_of_not_mem ?_ ih))
      · rintro rfl
        exact absurd hh (by decide)
      · rintro rfl
        exact absurd hl (by decide)

/-- **No text makes the round trip**: the texts are as long as they were made. What stands before
the first NUL is of the form, and is decoded to the text. -/
theorem url_codec (s : Text) : ¬ RoundTrips s ∧ ((0 : UInt8) ∉ s → ∃ t n, IsUrlText t ∧
    urlEncode s = some (t ++ List.replicate (n + 1) 0) ∧
    urlDecode (t ++ List.replicate (n + 1) 0) =
      some (s ++ List.replicate (s.length * 2 + 1) 0)) := by
  have hle := length_encoded_le s
  obtain ⟨n, hn⟩ := Nat.exists_eq_add_of_le hle
  have hpad : s.length * 3 + 1 - (encoded s).length = n + 1 := by omega
  have hencode : urlEncode s = some (encoded s ++ List.replicate (n + 1) 0) := by
    rw [urlEncode_eq, hpad]
  refine ⟨?_, fun hnul => ⟨encoded s, n, isUrlText_encoded s, hencode, ?_⟩⟩
  · rintro ⟨t, ht, -, hdecode⟩
    obtain rfl := Option.some.inj (hencode.symm.trans ht)
    have hlength := length_urlDecode hdecode
    rw [List.length_append, List.length_replicate] at hlength
    omega
  · have hsize : (encoded s ++ List.replicate (n + 1) (0 : UInt8)).length =
        s.length * 2 + 1 + s.length := by
      rw [List.length_append, List.length_replicate]
      omega
    have hloop := decodeLoop_encoded hnul [] (s.length * 2 + 1) (n + 1)
    obtain ⟨out, hout, hfst⟩ := Option.map_eq_some_iff.mp
      (put_zero_written ([] ++ s) (s.length * 2 + 1))
    have hstart : ((List.replicate (s.length * 2 + 1 + s.length) 0, 0) : Text × ℕ) =
        written [] (s.length * 2 + 1 + s.length) := rfl
    rw [urlDecode, hsize, hstart, hloop, Option.bind_eq_bind, Option.bind_some, hout]
    exact congrArg some hfst

/-- A letter comes back with three NULs. -/
theorem letter_padded : urlEncode (ascii "a") = some [97, 0, 0, 0] ∧
    urlDecode [97, 0, 0, 0] = some [97, 0, 0, 0] ∧ ¬ RoundTrips (ascii "a") := by
  have hencode : urlEncode (ascii "a") = some [97, 0, 0, 0] := by decide
  refine ⟨hencode, by decide, ?_⟩
  rintro ⟨t, ht, htext, -⟩
  obtain rfl := Option.some.inj (hencode.symm.trans ht)
  exact not_mem_of_isUrlText htext (by decide)

end RoundTrip

end ArchNet.Util

import ArchNet.HttpQuery

/-!
# Base64

`base64_encode` and `base64_decode` of `utils/crypto.hpp`, beside the encoder of the HTTP client.

## Conventions

* `in_len` is an `unsigned int` in the encoder and an `int` in the decoder; the size of a text is
  converted to it.
* `none` stands for an `int` that overflows.

## Main results

* `base64_agree_iff`: **the encoders agree and the decoder inverts them**, for texts whose encoding
  an `int` counts.
-/

open Bytes

namespace ArchNet.Crypto

open Routing (Text)
open HttpQuery (isAlnum)
open HttpClient (base64Digit base64Digits base64Loop)

/-! ### The code -/

/-- `base64_chars`. -/
def base64Chars : Text := ascii "ABCDEFGHIJKLMNOPQRSTUVWXYZabcdefghijklmnopqrstuvwxyz0123456789+/"

/-- `base64_chars[i]`. -/
def charAt (i : UInt8) : UInt8 := base64Chars.getD i.toNat 0

/-- `base64_chars.find(c)`, converted to `unsigned char`: `npos` becomes 255. -/
def find (c : UInt8) : UInt8 :=
  if c ∈ base64Chars then UInt8.ofNat (base64Chars.idxOf c) else 255

/-- `is_base64(c)`. -/
def isBase64 (c : UInt8) : Bool := isAlnum c || c = 43 || c = 47

/-- `char_array_4` from `char_array_3`. -/
def sextets (a b c : UInt8) : List UInt8 :=
  [(a &&& 0xfc) >>> 2, ((a &&& 0x03) <<< 4) + ((b &&& 0xf0) >>> 4),
    ((b &&& 0x0f) <<< 2) + ((c &&& 0xc0) >>> 6), c &&& 0x3f]

/-- `char_array_3` from `char_array_4`. -/
def octets (a b c d : UInt8) : List UInt8 :=
  [(a <<< 2) + ((b &&& 0x30) >>> 4), ((b &&& 0x0f) <<< 4) + ((c &&& 0x3c) >>> 2),
    ((c &&& 0x03) <<< 6) + d]

/-- The end of `base64_encode`, with the bytes that are left in `char_array_3`. -/
def encodeTail (pending : List UInt8) : Text :=
  if pending = [] then []
  else ((sextets (pending.getD 0 0) (pending.getD 1 0) (pending.getD 2 0)).take
    (pending.length + 1)).map charAt ++ List.replicate (3 - pending.length) 61

/-- The loop of `base64_encode`. -/
def encodeLoop (pending : List UInt8) : Text → Text
  | [] => encodeTail pending
  | c :: s =>
      if pending.length = 2 then
        (sextets (pending.getD 0 0) (pending.getD 1 0) c).map charAt ++ encodeLoop [] s
      else encodeLoop (pending ++ [c]) s

/-- `base64_encode(bytes_to_encode, in_len)`. -/
def base64Encode (bytesToEncode : Text) (inLen : ℕ) : Text :=
  encodeLoop [] (bytesToEncode.take (inLen % 2 ^ 32))

/-- The end of `base64_decode`, with the characters that are left in `char_array_4`; those that are
missing are zero, and are looked up too. -/
def decodeTail (pending : List UInt8) : Text :=
  if pending = [] then []
  else (octets (find (pending.getD 0 0)) (find (pending.getD 1 0)) (find (pending.getD 2 0))
    (find (pending.getD 3 0))).take (pending.length - 1)

/-- The loop of `base64_decode`; behind the text is a NUL. -/
def decodeLoop (inLen : ℤ) (in_ : ℕ) (pending : List UInt8) : Text → Option Text
  | [] => if inLen = -2 ^ 31 then none else some (decodeTail pending)
  | c :: s =>
      if inLen = -2 ^ 31 then none
      else if inLen = 0 ∨ c = 61 ∨ isBase64 c = false then some (decodeTail pending)
      else if in_ + 1 = 2 ^ 31 then none
      else if pending.length = 3 then
        (decodeLoop (inLen - 1) (in_ + 1) [] s).map fun ret =>
          octets (find (pending.getD 0 0)) (find (pending.getD 1 0)) (find (pending.getD 2 0))
            (find c) ++ ret
      else decodeLoop (inLen - 1) (in_ + 1) (pending ++ [c]) s

/-- `base64_decode(encoded_string)`. -/
def base64Decode (encodedString : Text) : Option Text :=
  decodeLoop (asInt (encodedString.length % 2 ^ 32)) 0 [] encodedString

/-! ### Bits -/

section Bits

variable {a b c : UInt8} {i j k l : UInt8}

/-- **The bits of a mask**, shifted to the end. -/
theorem toNat_and_shiftRight {m s : UInt8} {t n : ℕ} (hs : s.toNat = t) (ht : t < 8)
    (hm : m.toNat >>> t = 2 ^ n - 1) (a : UInt8) :
    ((a &&& m) >>> s).toNat = a.toNat / 2 ^ t % 2 ^ n := by
  rw [UInt8.toNat_shiftRight, UInt8.toNat_and, hs, Nat.mod_eq_of_lt ht, Nat.shiftRight_and_distrib,
    hm, Nat.and_two_pow_sub_one_eq_mod, Nat.shiftRight_eq_div_pow]

/-- The lowest bits, shifted to the front. -/
theorem toNat_and_shiftLeft {m s : UInt8} {t n : ℕ} (hs : s.toNat = t) (ht : t < 8)
    (hm : m.toNat = 2 ^ n - 1) (a : UInt8) :
    ((a &&& m) <<< s).toNat = a.toNat % 2 ^ n * 2 ^ t % 2 ^ 8 := by
  rw [UInt8.toNat_shiftLeft, UInt8.toNat_and, hs, Nat.mod_eq_of_lt ht, hm,
    Nat.and_two_pow_sub_one_eq_mod, Nat.shiftLeft_eq]

/-- The upper six bits of an octet. -/
theorem toNat_high_six (a : UInt8) : ((a &&& 0xfc) >>> 2).toNat = a.toNat / 4 := by
  have ha := a.toNat_lt
  rw [toNat_and_shiftRight (t := 2) (n := 6) rfl (by decide) rfl]
  omega

/-- The lower two bits, at the top of a sextet. -/
theorem toNat_low_two (a : UInt8) : ((a &&& 0x03) <<< 4).toNat = a.toNat % 4 * 16 := by
  rw [toNat_and_shiftLeft (t := 4) (n := 2) rfl (by decide) rfl]
  omega

/-- The upper four bits. -/
theorem toNat_high_four (a : UInt8) : ((a &&& 0xf0) >>> 4).toNat = a.toNat / 16 := by
  have ha := a.toNat_lt
  rw [toNat_and_shiftRight (t := 4) (n := 4) rfl (by decide) rfl]
  omega

/-- The lower four bits, at the top of a sextet. -/
theorem toNat_low_four (a : UInt8) : ((a &&& 0x0f) <<< 2).toNat = a.toNat % 16 * 4 := by
  rw [toNat_and_shiftLeft (t := 2) (n := 4) rfl (by decide) rfl]
  omega

/-- The upper two bits. -/
theorem toNat_high_two (a : UInt8) : ((a &&& 0xc0) >>> 6).toNat = a.toNat / 64 := by
  have ha := a.toNat_lt
  rw [toNat_and_shiftRight (t := 6) (n := 2) rfl (by decide) rfl]
  omega

/-- The lower six bits. -/
theorem toNat_low_six (a : UInt8) : (a &&& 0x3f).toNat = a.toNat % 64 :=
  (UInt8.toNat_and a 0x3f).trans (Nat.and_two_pow_sub_one_eq_mod a.toNat 6)

/-- **The sextets of three bytes.** -/
theorem map_toNat_sextets (a b c : UInt8) : (sextets a b c).map UInt8.toNat =
    [a.toNat / 4, a.toNat % 4 * 16 + b.toNat / 16, b.toNat % 16 * 4 + c.toNat / 64,
      c.toNat % 64] := by
  have hb := b.toNat_lt
  have hc := c.toNat_lt
  have hsecond : (a.toNat % 4 * 16 + b.toNat / 16) % 256 = a.toNat % 4 * 16 + b.toNat / 16 := by
    omega
  have hthird : (b.toNat % 16 * 4 + c.toNat / 64) % 256 = b.toNat % 16 * 4 + c.toNat / 64 := by
    omega
  simp only [sextets, List.map_cons, List.map_nil, UInt8.toNat_add, toNat_high_six, toNat_low_two,
    toNat_high_four, toNat_low_four, toNat_high_two, toNat_low_six, Nat.reducePow, hsecond, hthird]

/-- A sextet at the top of an octet. -/
theorem toNat_shift_two (i : UInt8) : (i <<< 2).toNat = i.toNat * 4 % 256 := by
  rw [UInt8.toNat_shiftLeft, Nat.shiftLeft_eq]
  rfl

/-- The bits of the second sextet that belong to the first octet. -/
theorem toNat_middle_two (j : UInt8) : ((j &&& 0x30) >>> 4).toNat = j.toNat / 16 % 4 :=
  toNat_and_shiftRight (t := 4) (n := 2) rfl (by decide) rfl j

/-- The bits of the second sextet that belong to the second octet. -/
theorem toNat_shift_four (j : UInt8) : ((j &&& 0x0f) <<< 4).toNat = j.toNat % 16 * 16 := by
  rw [toNat_and_shiftLeft (t := 4) (n := 4) rfl (by decide) rfl]
  omega

/-- The bits of the third sextet that belong to the second octet. -/
theorem toNat_middle_four (k : UInt8) : ((k &&& 0x3c) >>> 2).toNat = k.toNat / 4 % 16 :=
  toNat_and_shiftRight (t := 2) (n := 4) rfl (by decide) rfl k

/-- The bits of the third sextet that belong to the third octet. -/
theorem toNat_shift_six (k : UInt8) : ((k &&& 0x03) <<< 6).toNat = k.toNat % 4 * 64 := by
  rw [toNat_and_shiftLeft (t := 6) (n := 2) rfl (by decide) rfl]
  omega

/-- The sextets of three bytes, one by one. -/
theorem exists_sextets (a b c : UInt8) : ∃ i j k l, sextets a b c = [i, j, k, l] ∧
    i.toNat = a.toNat / 4 ∧ j.toNat = a.toNat % 4 * 16 + b.toNat / 16 ∧
    k.toNat = b.toNat % 16 * 4 + c.toNat / 64 ∧ l.toNat = c.toNat % 64 := by
  refine ⟨_, _, _, _, rfl, ?_⟩
  simpa [sextets] using map_toNat_sextets a b c

/-- The first octet, put together again. -/
theorem first_octet (hi : i.toNat = a.toNat / 4) (hj : j.toNat = a.toNat % 4 * 16 + b.toNat / 16) :
    (i <<< 2) + ((j &&& 0x30) >>> 4) = a := by
  have ha := a.toNat_lt
  have hb := b.toNat_lt
  rw [← UInt8.toNat_inj, UInt8.toNat_add, toNat_shift_two, toNat_middle_two]
  omega

/-- The second octet, put together again. -/
theorem second_octet (hj : j.toNat = a.toNat % 4 * 16 + b.toNat / 16)
    (hk : k.toNat = b.toNat % 16 * 4 + c.toNat / 64) :
    ((j &&& 0x0f) <<< 4) + ((k &&& 0x3c) >>> 2) = b := by
  have hb := b.toNat_lt
  have hc := c.toNat_lt
  rw [← UInt8.toNat_inj, UInt8.toNat_add, toNat_shift_four, toNat_middle_four]
  omega

/-- The third octet, put together again. -/
theorem third_octet (hk : k.toNat = b.toNat % 16 * 4 + c.toNat / 64) (hl : l.toNat = c.toNat % 64) :
    ((k &&& 0x03) <<< 6) + l = c := by
  have hb := b.toNat_lt
  have hc := c.toNat_lt
  rw [← UInt8.toNat_inj, UInt8.toNat_add, toNat_shift_six]
  omega

/-- **The octets of the sextets** are the three bytes. -/
theorem exists_octets (a b c : UInt8) : ∃ i j k l, sextets a b c = [i, j, k, l] ∧
    octets i j k l = [a, b, c] := by
  obtain ⟨i, j, k, l, hsextets, hi, hj, hk, hl⟩ := exists_sextets a b c
  refine ⟨i, j, k, l, hsextets, ?_⟩
  rw [octets, first_octet hi hj, second_octet hj hk, third_octet hk hl]

/-- Sextets are less than 64. -/
theorem toNat_lt_of_mem_sextets {m : UInt8} (hm : m ∈ sextets a b c) : m.toNat < 64 := by
  have ha := a.toNat_lt
  have hb := b.toNat_lt
  have hc := c.toNat_lt
  have hmem := List.mem_map_of_mem (f := UInt8.toNat) hm
  rw [map_toNat_sextets] at hmem
  simp only [List.mem_cons, List.not_mem_nil, or_false] at hmem
  omega

end Bits

/-- Induction over a text **by groups of three bytes**. -/
theorem three_induction {P : Text → Prop} (nil : P []) (one : ∀ a, P [a]) (two : ∀ a b, P [a, b])
    (three : ∀ a b c s, P s → P (a :: b :: c :: s)) : ∀ s, P s
  | [] => nil
  | [a] => one a
  | [a, b] => two a b
  | a :: b :: c :: s => three a b c s (three_induction nil one two three s)

/-! ### The encoders -/

section Encoders

variable {a b c : UInt8} {s : Text} {val m n : ℕ}

theorem encodeLoop_nil : encodeLoop [] [] = [] := by
  rw [encodeLoop, encodeTail, if_pos rfl]

theorem encodeLoop_one (a : UInt8) :
    encodeLoop [] [a] = ((sextets a 0 0).take 2).map charAt ++ [61, 61] := by
  rw [encodeLoop, if_neg (by decide), encodeLoop, encodeTail, if_neg (by simp)]
  rfl

theorem encodeLoop_two (a b : UInt8) :
    encodeLoop [] [a, b] = ((sextets a b 0).take 3).map charAt ++ [61] := by
  rw [encodeLoop, if_neg (by decide), encodeLoop, if_neg (by simp), encodeLoop, encodeTail,
    if_neg (by simp)]
  rfl

theorem encodeLoop_three (a b c : UInt8) (s : Text) :
    encodeLoop [] (a :: b :: c :: s) = (sextets a b c).map charAt ++ encodeLoop [] s := rfl

/-- A digit is chosen by six bits. -/
theorem base64Digit_congr (h : m % 64 = n % 64) : base64Digit m = base64Digit n := by
  rw [base64Digit, base64Digit, h]

/-- The character of a sextet is the digit of its value. -/
theorem charAt_eq {i : UInt8} (h : i.toNat = n) (hlt : n < 64) : charAt i = base64Digit n := by
  rw [base64Digit, Nat.mod_eq_of_lt hlt, ← h]
  rfl

/-- The characters of three bytes. -/
theorem map_charAt_sextets (a b c : UInt8) : (sextets a b c).map charAt =
    [base64Digit (a.toNat / 4), base64Digit (a.toNat % 4 * 16 + b.toNat / 16),
      base64Digit (b.toNat % 16 * 4 + c.toNat / 64), base64Digit (c.toNat % 64)] := by
  obtain ⟨i, j, k, l, hsextets, hi, hj, hk, hl⟩ := exists_sextets a b c
  have ha := a.toNat_lt
  have hb := b.toNat_lt
  have hc := c.toNat_lt
  rw [hsextets, List.map_cons, List.map_cons, List.map_cons, List.map_singleton,
    charAt_eq hi (by omega), charAt_eq hj (by omega), charAt_eq hk (by omega),
    charAt_eq hl (by omega)]

/-- **Three bytes** put out four digits, whatever came before them: the accumulator wraps around far
above the bits that are read. -/
theorem base64Loop_three (a b c : UInt8) (s : Text) (val : ℕ) : ∃ val',
    base64Loop (a :: b :: c :: s) val (-6) =
      (sextets a b c).map charAt ++ base64Loop s val' (-6) := by
  have ha := a.toNat_lt
  have hb := b.toNat_lt
  have hc := c.toNat_lt
  set val₁ := (val <<< 8 + a.toNat) % 2 ^ 32 with h₁
  set val₂ := (val₁ <<< 8 + b.toNat) % 2 ^ 32 with h₂
  set val₃ := (val₂ <<< 8 + c.toNat) % 2 ^ 32 with h₃
  have hloop : base64Loop (a :: b :: c :: s) val (-6) = [base64Digit (val₁ >>> 2),
      base64Digit (val₂ >>> 4), base64Digit (val₃ >>> 6), base64Digit (val₃ >>> 0)] ++
        base64Loop s val₃ (-6) := rfl
  rw [Nat.shiftLeft_eq] at h₁ h₂ h₃
  refine ⟨val₃, hloop.trans ?_⟩
  rw [map_charAt_sextets, Nat.shiftRight_eq_div_pow, Nat.shiftRight_eq_div_pow,
    Nat.shiftRight_eq_div_pow, Nat.shiftRight_zero]
  rw [base64Digit_congr (m := val₁ / 2 ^ 2) (n := a.toNat / 4) (by omega),
    base64Digit_congr (m := val₂ / 2 ^ 4) (n := a.toNat % 4 * 16 + b.toNat / 16) (by omega),
    base64Digit_congr (m := val₃ / 2 ^ 6) (n := b.toNat % 16 * 4 + c.toNat / 64) (by omega),
    base64Digit_congr (m := val₃) (n := c.toNat % 64) (by omega)]

theorem base64Loop_one (a : UInt8) (val : ℕ) :
    base64Loop [a] val (-6) = ((sextets a 0 0).take 2).map charAt := by
  have ha := a.toNat_lt
  set val₁ := (val <<< 8 + a.toNat) % 2 ^ 32 with h₁
  have hloop : base64Loop [a] val (-6) =
      [base64Digit (val₁ >>> 2), base64Digit ((val₁ <<< 8) >>> 4)] := rfl
  rw [Nat.shiftLeft_eq] at h₁
  rw [hloop, List.map_take, map_charAt_sextets, Nat.shiftRight_eq_div_pow,
    Nat.shiftRight_eq_div_pow, Nat.shiftLeft_eq,
    base64Digit_congr (m := val₁ / 2 ^ 2) (n := a.toNat / 4) (by omega),
    base64Digit_congr (m := val₁ * 2 ^ 8 / 2 ^ 4) (n := a.toNat % 4 * 16) (by omega)]
  rfl

theorem base64Loop_two (a b : UInt8) (val : ℕ) :
    base64Loop [a, b] val (-6) = ((sextets a b 0).take 3).map charAt := by
  have ha := a.toNat_lt
  have hb := b.toNat_lt
  set val₁ := (val <<< 8 + a.toNat) % 2 ^ 32 with h₁
  set val₂ := (val₁ <<< 8 + b.toNat) % 2 ^ 32 with h₂
  have hloop : base64Loop [a, b] val (-6) =
      [base64Digit (val₁ >>> 2), base64Digit (val₂ >>> 4), base64Digit ((val₂ <<< 8) >>> 6)] := rfl
  rw [Nat.shiftLeft_eq] at h₁ h₂
  rw [hloop, List.map_take, map_charAt_sextets, Nat.shiftRight_eq_div_pow,
    Nat.shiftRight_eq_div_pow, Nat.shiftRight_eq_div_pow, Nat.shiftLeft_eq,
    base64Digit_congr (m := val₁ / 2 ^ 2) (n := a.toNat / 4) (by omega),
    base64Digit_congr (m := val₂ / 2 ^ 4) (n := a.toNat % 4 * 16 + b.toNat / 16) (by omega),
    base64Digit_congr (m := val₂ * 2 ^ 8 / 2 ^ 6) (n := b.toNat % 16 * 4) (by omega)]
  rfl

/-- **The client's encoder** puts out the same text. -/
theorem base64Encode_eq (s : Text) : HttpClient.base64Encode s = encodeLoop [] s := by
  have hloop : ∀ val, base64Loop s val (-6) ++
      List.replicate ((4 - (base64Loop s val (-6)).length % 4) % 4) 61 = encodeLoop [] s := by
    induction s using three_induction with
    | nil =>
        intro val
        rw [encodeLoop_nil, base64Loop, if_neg (by decide)]
        rfl
    | one a =>
        intro val
        rw [base64Loop_one, encodeLoop_one]
        rfl
    | two a b =>
        intro val
        rw [base64Loop_two, encodeLoop_two]
        rfl
    | three a b c s ih =>
        intro val
        obtain ⟨val', hval'⟩ := base64Loop_three a b c s val
        have hlength : ((sextets a b c).map charAt).length = 4 := rfl
        rw [hval', List.length_append, hlength, Nat.add_mod_left, List.append_assoc, ih val',
          encodeLoop_three]
  exact hloop 0

/-- Three octets are four characters. -/
theorem length_encodeLoop_three (a b c : UInt8) (s : Text) :
    (encodeLoop [] (a :: b :: c :: s)).length = (encodeLoop [] s).length + 4 := by
  rw [encodeLoop_three, List.length_append, add_comm]
  rfl

/-- **The length of an encoding.** -/
theorem length_encodeLoop (s : Text) : (encodeLoop [] s).length = 4 * ((s.length + 2) / 3) := by
  induction s using three_induction with
  | nil => rw [encodeLoop_nil, List.length_nil]
  | one a =>
      rw [encodeLoop_one]
      simp [sextets]
  | two a b =>
      rw [encodeLoop_two]
      simp [sextets]
  | three a b c s ih =>
      rw [length_encodeLoop_three, ih]
      simp only [List.length_cons]
      omega

end Encoders

/-! ### The decoder -/

section Decoder

variable {a b c i : UInt8} {s t pending : Text} {inLen : ℤ} {in_ n : ℕ} {out : Text}

/-- The bytes of the table. -/
theorem base64Chars_eq : base64Chars =
    [65, 66, 67, 68, 69, 70, 71, 72, 73, 74, 75, 76, 77, 78, 79, 80, 81, 82, 83, 84, 85, 86, 87, 88,
      89, 90, 97, 98, 99, 100, 101, 102, 103, 104, 105, 106, 107, 108, 109, 110, 111, 112, 113, 114,
      115, 116, 117, 118, 119, 120, 121, 122, 48, 49, 50, 51, 52, 53, 54, 55, 56, 57, 43, 47] := by
  rw [base64Chars, ascii, String.toList_ofList]
  rfl

/-- The table has characters of the alphabet only. -/
theorem all_isBase64 : base64Chars.all isBase64 = true := by
  rw [base64Chars_eq]
  rfl

/-- The table has **no character twice**: its characters have different numbers. -/
theorem nodup_base64Chars : base64Chars.Nodup := by
  rw [base64Chars_eq]
  exact List.Nodup.of_map (fun c : UInt8 => if 97 ≤ c then c.toNat - 71
    else if 65 ≤ c then c.toNat - 65 else if 48 ≤ c then c.toNat + 4 else if c = 43 then 62 else 63)
    (List.nodup_range (n := 64))

/-- A character of the table is found there. -/
theorem find_charAt (i : UInt8) (hi : i.toNat < 64) :
    isBase64 (charAt i) = true ∧ find (charAt i) = i := by
  have hlength : i.toNat < base64Chars.length := by rwa [base64Chars_eq]
  have hchar : charAt i = base64Chars[i.toNat] := by
    rw [charAt, List.getD_eq_getElem?_getD, List.getElem?_eq_getElem hlength, Option.getD_some]
  have hmem : charAt i ∈ base64Chars := by
    rw [hchar]
    exact List.getElem_mem hlength
  refine ⟨List.all_eq_true.mp all_isBase64 _ hmem, ?_⟩
  rw [find, if_pos hmem, hchar, nodup_base64Chars.idxOf_getElem i.toNat hlength, UInt8.ofNat_toNat]

/-- The padding is not in the alphabet. -/
theorem ne_of_isBase64 (h : isBase64 c = true) : c ≠ 61 := by
  rintro rfl
  exact absurd h (by decide)

/-- A character of the table is put into `char_array_4`. -/
theorem decodeLoop_cons (hlen : 0 < inLen) (hin : in_ + 1 < 2 ^ 31) (hc : isBase64 c = true)
    (hpending : pending.length ≠ 3) : decodeLoop inLen in_ pending (c :: s) =
      decodeLoop (inLen - 1) (in_ + 1) (pending ++ [c]) s := by
  rw [decodeLoop, if_neg (by omega), if_neg, if_neg (by omega), if_neg hpending]
  rintro (hzero | heq | hnot)
  · omega
  · exact ne_of_isBase64 hc heq
  · rw [hc] at hnot
    cases hnot

/-- The fourth character. -/
theorem decodeLoop_fourth (hlen : 0 < inLen) (hin : in_ + 1 < 2 ^ 31) (hc : isBase64 c = true)
    (hpending : pending.length = 3) : decodeLoop inLen in_ pending (c :: s) =
      (decodeLoop (inLen - 1) (in_ + 1) [] s).map fun ret =>
        octets (find (pending.getD 0 0)) (find (pending.getD 1 0)) (find (pending.getD 2 0))
          (find c) ++ ret := by
  rw [decodeLoop, if_neg (by omega), if_neg, if_neg (by omega), if_pos hpending]
  rintro (hzero | heq | hnot)
  · omega
  · exact ne_of_isBase64 hc heq
  · rw [hc] at hnot
    cases hnot

/-- The padding ends the loop. -/
theorem decodeLoop_equals (hlen : 0 < inLen) :
    decodeLoop inLen in_ pending (61 :: s) = some (decodeTail pending) := by
  rw [decodeLoop, if_neg (by omega), if_pos (.inr (.inl rfl))]

/-- The characters of three bytes are **found in the table**. -/
theorem found_sextets {i j k l : UInt8} (h : sextets a b c = [i, j, k, l]) :
    (isBase64 (charAt i) = true ∧ find (charAt i) = i) ∧
      (isBase64 (charAt j) = true ∧ find (charAt j) = j) ∧
      (isBase64 (charAt k) = true ∧ find (charAt k) = k) ∧
      isBase64 (charAt l) = true ∧ find (charAt l) = l := by
  have hfound : ∀ m ∈ [i, j, k, l], isBase64 (charAt m) = true ∧ find (charAt m) = m :=
    fun m hm => find_charAt m (toNat_lt_of_mem_sextets (h ▸ hm))
  simpa only [List.forall_mem_cons, List.not_mem_nil, false_imp_iff, implies_true, and_true]
    using hfound

/-- Four characters of the table **give three bytes**. -/
theorem decodeLoop_four (a b c : UInt8) (hlen : 0 ≤ inLen) (hin : in_ + 4 < 2 ^ 31) :
    decodeLoop (inLen + 4) in_ [] ((sextets a b c).map charAt ++ s) =
      (decodeLoop inLen (in_ + 4) [] s).map fun ret => a :: b :: c :: ret := by
  obtain ⟨i, j, k, l, hsextets, hoctets⟩ := exists_octets a b c
  obtain ⟨⟨hci, hfi⟩, ⟨hcj, hfj⟩, ⟨hck, hfk⟩, hcl, hfl⟩ := found_sextets hsextets
  have hend : inLen + 4 - 1 - 1 - 1 - 1 = inLen := by omega
  rw [hsextets, List.map_cons, List.map_cons, List.map_cons, List.map_singleton, List.cons_append,
    List.cons_append, List.cons_append, List.singleton_append,
    decodeLoop_cons (by omega) (by omega) hci (by simp),
    decodeLoop_cons (by omega) (by omega) hcj (by simp),
    decodeLoop_cons (by omega) (by omega) hck (by simp),
    decodeLoop_fourth (by omega) (by omega) hcl (by simp), hend]
  refine congrArg (Option.map · _) (funext fun ret => ?_)
  have hfind : octets (find (charAt i)) (find (charAt j)) (find (charAt k)) (find (charAt l)) =
      [a, b, c] := by rw [hfi, hfj, hfk, hfl, hoctets]
  exact congrArg (· ++ ret) hfind

/-- The end of the text of one byte. -/
theorem decodeLoop_two (a : UInt8) (hin : in_ + 4 < 2 ^ 31) :
    decodeLoop 4 in_ [] (((sextets a 0 0).take 2).map charAt ++ [61, 61]) = some [a] := by
  obtain ⟨i, j, k, l, hsextets, hoctets⟩ := exists_octets a 0 0
  obtain ⟨⟨hci, hfi⟩, ⟨hcj, hfj⟩, -⟩ := found_sextets hsextets
  have hchars : ((sextets a 0 0).take 2).map charAt ++ [61, 61] = [charAt i, charAt j, 61, 61] := by
    rw [hsextets]
    rfl
  have hfirst : ∀ m n, (octets i j m n).take 1 = [a] := fun m n => congrArg (List.take 1) hoctets
  have htail : decodeTail [charAt i, charAt j] = [a] := by
    rw [decodeTail, if_neg (List.cons_ne_nil _ _), List.getD_cons_zero, List.getD_cons_succ,
      List.getD_cons_zero, hfi, hfj]
    exact hfirst _ _
  rw [hchars, decodeLoop_cons (by decide) (by omega) hci (by simp),
    decodeLoop_cons (by decide) (by omega) hcj (by simp), decodeLoop_equals (by decide)]
  exact congrArg some htail

/-- The end of the text of two bytes. -/
theorem decodeLoop_three (a b : UInt8) (hin : in_ + 4 < 2 ^ 31) :
    decodeLoop 4 in_ [] (((sextets a b 0).take 3).map charAt ++ [61]) = some [a, b] := by
  obtain ⟨i, j, k, l, hsextets, hoctets⟩ := exists_octets a b 0
  obtain ⟨⟨hci, hfi⟩, ⟨hcj, hfj⟩, ⟨hck, hfk⟩, -⟩ := found_sextets hsextets
  have hchars : ((sextets a b 0).take 3).map charAt ++ [61] =
      [charAt i, charAt j, charAt k, 61] := by
    rw [hsextets]
    rfl
  have hfirst : ∀ n, (octets i j k n).take 2 = [a, b] := fun n => congrArg (List.take 2) hoctets
  have htail : decodeTail [charAt i, charAt j, charAt k] = [a, b] := by
    rw [decodeTail, if_neg (List.cons_ne_nil _ _), List.getD_cons_zero, List.getD_cons_succ,
      List.getD_cons_zero, List.getD_cons_succ, List.getD_cons_succ, List.getD_cons_zero, hfi, hfj,
      hfk]
    exact hfirst _
  rw [hchars, decodeLoop_cons (by decide) (by omega) hci (by simp),
    decodeLoop_cons (by decide) (by omega) hcj (by simp),
    decodeLoop_cons (by decide) (by omega) hck (by simp), decodeLoop_equals (by decide)]
  exact congrArg some htail

/-- **Decoding inverts encoding** as long as the counters do not overflow. -/
theorem decodeLoop_encodeLoop (s : Text) (h : in_ + (encodeLoop [] s).length < 2 ^ 31) :
    decodeLoop (encodeLoop [] s).length in_ [] (encodeLoop [] s) = some s := by
  induction s using three_induction generalizing in_ with
  | nil =>
      rw [encodeLoop_nil]
      rfl
  | one a =>
      rw [encodeLoop_one] at h ⊢
      exact decodeLoop_two a h
  | two a b =>
      rw [encodeLoop_two] at h ⊢
      exact decodeLoop_three a b h
  | three a b c s ih =>
      rw [length_encodeLoop_three] at h ⊢
      have hin : in_ + 4 + (encodeLoop [] s).length < 2 ^ 31 := by omega
      rw [encodeLoop_three, Nat.cast_add, Nat.cast_ofNat,
        decodeLoop_four a b c (Int.natCast_nonneg _) (by omega), ih hin]
      rfl

/-- The text of a loop consists of characters of the table and **at most two** `=`. -/
theorem exists_body (s : Text) : ∃ body n, encodeLoop [] s = body ++ List.replicate n 61 ∧ n ≤ 2 ∧
    ∀ c ∈ body, isBase64 c = true := by
  have hchars : ∀ a b c, ∀ d ∈ (sextets a b c).map charAt, isBase64 d = true := by
    intro a b c d hd
    obtain ⟨m, hm, rfl⟩ := List.mem_map.mp hd
    exact (find_charAt m (toNat_lt_of_mem_sextets hm)).1
  induction s using three_induction with
  | nil => exact ⟨[], 0, encodeLoop_nil, Nat.zero_le 2, fun c hc => absurd hc List.not_mem_nil⟩
  | one a =>
      refine ⟨_, 2, encodeLoop_one a, le_rfl, fun c hc => hchars a 0 0 c ?_⟩
      rw [List.map_take] at hc
      exact List.mem_of_mem_take hc
  | two a b =>
      refine ⟨_, 1, encodeLoop_two a b, by decide, fun c hc => hchars a b 0 c ?_⟩
      rw [List.map_take] at hc
      exact List.mem_of_mem_take hc
  | three a b c s ih =>
      obtain ⟨body, n, hbody, hn, hall⟩ := ih
      refine ⟨(sextets a b c).map charAt ++ body, n, ?_, hn, fun d hd => ?_⟩
      · rw [encodeLoop_three, hbody, List.append_assoc]
      · exact (List.mem_append.mp hd).elim (hchars a b c d) (hall d)

/-- **A negative counter overflows** where enough characters follow. -/
theorem decodeLoop_eq_none (hn : n < 2 ^ 31) (hlen : inLen = n - 2 ^ 31) (hle : n ≤ s.length)
    (hall : ∀ c ∈ s, isBase64 c = true) : decodeLoop inLen in_ pending (s ++ t) = none := by
  induction n generalizing inLen in_ pending s with
  | zero =>
      have hmin : inLen = -2 ^ 31 := by omega
      cases s ++ t with
      | nil => rw [decodeLoop, if_pos hmin]
      | cons c rest => rw [decodeLoop, if_pos hmin]
  | succ n ih =>
      obtain _ | ⟨c, s⟩ := s
      · exact absurd hle (by simp)
      · have hc := hall c List.mem_cons_self
        have hrest : ∀ in_ pending, decodeLoop (inLen - 1) in_ pending (s ++ t) = none :=
          fun in_ pending => ih (by omega) (by omega) (Nat.le_of_succ_le_succ hle)
            fun d hd => hall d (List.mem_cons_of_mem _ hd)
        rw [List.cons_append, decodeLoop]
        split_ifs
        · rfl
        · next hstop =>
            rcases hstop with hzero | heq | hnot
            · omega
            · exact absurd heq (ne_of_isBase64 hc)
            · exact absurd hc (by simp [hnot])
        · rfl
        · rw [hrest, Option.map_none]
        · exact hrest _ _

/-- The tail gives no more octets than characters are pending. -/
theorem length_decodeTail_le : (decodeTail pending).length ≤ pending.length := by
  rw [decodeTail]
  split_ifs
  · exact Nat.zero_le _
  · exact (List.length_take_le _ _).trans (Nat.sub_le _ _)

/-- What is decoded is **not longer** than what is counted. -/
theorem length_le_of_decodeLoop (hlen : 0 ≤ inLen) (h : decodeLoop inLen in_ pending s = some out) :
    (out.length : ℤ) ≤ inLen + pending.length := by
  have htail : (decodeTail pending).length ≤ pending.length := length_decodeTail_le
  induction s generalizing inLen in_ pending out with
  | nil =>
      rw [decodeLoop, if_neg (by omega)] at h
      obtain rfl := Option.some.inj h
      omega
  | cons c s ih =>
      rw [decodeLoop, if_neg (by omega)] at h
      split_ifs at h with hstop hin hfull
      · obtain rfl := Option.some.inj h
        omega
      · obtain ⟨ret, hret, rfl⟩ := Option.map_eq_some_iff.mp h
        have hle := ih (by omega) hret length_decodeTail_le
        rw [List.length_append, octets]
        simp only [List.length_cons, List.length_nil] at hle ⊢
        omega
      · have hle := ih (by omega) h length_decodeTail_le
        rw [List.length_append, List.length_singleton] at hle
        omega

end Decoder

/-! ### The agreement -/

section Agreement

variable {s : Text}

/-- **The encoders agree, and the decoder gives the text back.** -/
def Agree (s : Text) : Prop :=
  HttpClient.base64Encode s = base64Encode s s.length ∧
    base64Decode (base64Encode s s.length) = some s

/-- The encoding of a text whose size an `unsigned int` holds. -/
theorem base64Encode_of_lt (h : s.length < 2 ^ 32) : base64Encode s s.length = encodeLoop [] s := by
  rw [base64Encode, Nat.mod_eq_of_lt h, List.take_length]

/-- Encodings whose length fits into an `int` are decoded. -/
theorem agree_of_lt (h : 4 * ((s.length + 2) / 3) < 2 ^ 31) : Agree s := by
  rw [Agree, base64Encode_of_lt (by omega), base64Decode]
  have hlength := length_encodeLoop s
  refine ⟨base64Encode_eq s, ?_⟩
  rw [asInt, Nat.mod_eq_of_lt (by omega), if_pos (by omega)]
  exact decodeLoop_encodeLoop s (by omega)

/-- A size that an `unsigned int` does not hold: **the encodings differ in length**. -/
theorem encodings_differ (h : 2 ^ 32 ≤ s.length) :
    HttpClient.base64Encode s ≠ base64Encode s s.length := by
  intro heq
  have hlength := congrArg List.length heq
  rw [base64Encode_eq, base64Encode, length_encodeLoop, length_encodeLoop, List.length_take,
    Nat.min_eq_left (by omega)] at hlength
  omega

/-- No others are. -/
theorem lt_of_agree (h : Agree s) : 4 * ((s.length + 2) / 3) < 2 ^ 31 := by
  obtain ⟨hencode, hdecode⟩ := h
  have hsize : s.length < 2 ^ 32 := by
    by_contra hnot
    exact encodings_differ (not_lt.mp hnot) hencode
  rw [base64Encode_of_lt hsize, base64Decode] at hdecode
  have hlength := length_encodeLoop s
  by_contra hnot
  by_cases hsigned : 4 * ((s.length + 2) / 3) < 2 ^ 32
  · -- the counter is negative, and overflows before the text ends
    obtain ⟨body, n, hbody, hn, hall⟩ := exists_body s
    have hsum := congrArg List.length hbody
    rw [List.length_append, List.length_replicate] at hsum
    have hint : asInt ((encodeLoop [] s).length % 2 ^ 32) =
        ((4 * ((s.length + 2) / 3) - 2 ^ 31 : ℕ) : ℤ) - 2 ^ 31 := by
      rw [asInt, hlength, Nat.mod_eq_of_lt hsigned, if_neg hnot]
      omega
    rw [hint, hbody, decodeLoop_eq_none (n := 4 * ((s.length + 2) / 3) - 2 ^ 31) (by omega) rfl
      (by omega) hall] at hdecode
    cases hdecode
  · -- the counter has lost `2 ^ 32` characters
    have hint : asInt ((encodeLoop [] s).length % 2 ^ 32) =
        ((4 * ((s.length + 2) / 3) - 2 ^ 32 : ℕ) : ℤ) := by
      rw [asInt, hlength, if_pos (by omega)]
      omega
    have hle := length_le_of_decodeLoop (by rw [hint]; exact Int.natCast_nonneg _) hdecode
    rw [hint, List.length_nil] at hle
    omega

/-- **The encoders agree and the decoder inverts them** exactly for texts whose encoding an `int`
counts. -/
theorem base64_agree_iff (s : Text) : Agree s ↔ 4 * ((s.length + 2) / 3) < 2 ^ 31 :=
  ⟨lt_of_agree, agree_of_lt⟩

/-- A text that is too long. -/
theorem not_agree_of_long : ¬ Agree (List.replicate (3 * 2 ^ 29) 0) := by
  intro h
  have hlt := lt_of_agree h
  rw [List.length_replicate] at hlt
  exact absurd hlt (by decide)

end Agreement

end ArchNet.Crypto

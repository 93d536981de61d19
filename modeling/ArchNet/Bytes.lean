import Mathlib.Data.Int.Notation
import Mathlib.Data.List.Basic
import Mathlib.Tactic.Ring

/-!
# Big-Endian Byte Strings and Blocks of Memory

Fixed-width unsigned numbers as byte strings, most significant byte first — the network
order of `htons`, `htonl` and their inverses, for any width — and blocks of memory as lists
of bytes, with the copy operations of the C library.

* `beBytes k n` — the `k` bytes of `n`, modulo `256 ^ k`.
* `beVal l` — the number a byte string stands for.

* `asInt n` — an unsigned 32-bit number as an `int`; `ascii s` — the bytes of a text;
  `decimal n` — the decimal form of a number.

* `hostBytes k n` — the object representation of `n` on a little-endian host, and
  `byteSwap k n` — what `htonl` and its kind compute there.

* `span mem pos len` — the bytes of a block that a read of `len` bytes at `pos` gives, and
  `memcpy mem pos d` — the block after `d` has been copied to `pos`.

Decoding inverts encoding up to the width (`beVal_beBytes`), and encoding inverts decoding
(`beBytes_beVal`); a copy is read back where it was written (`span_memcpy_self`) and leaves
the rest of the block alone (`span_memcpy_before`, `span_memcpy_behind`).
-/

namespace Bytes

/-- The `k` low bytes of `n`, most significant first. -/
def beBytes : ℕ → ℕ → List UInt8
  | 0, _ => []
  | k + 1, n => UInt8.ofNat (n / 256 ^ k) :: beBytes k n

/-- The number a big-endian byte string stands for. -/
def beVal : List UInt8 → ℕ
  | [] => 0
  | b :: l => b.toNat * 256 ^ l.length + beVal l

@[simp] theorem length_beBytes (k n : ℕ) : (beBytes k n).length = k := by
  induction k with
  | zero => rfl
  | succ k ih => simp [beBytes, ih]

/-- **Decoding inverts encoding** up to the width. -/
theorem beVal_beBytes (k n : ℕ) : beVal (beBytes k n) = n % 256 ^ k := by
  induction k with
  | zero => simp [beBytes, beVal, Nat.mod_one]
  | succ k ih =>
      simp only [beBytes, beVal, length_beBytes, ih]
      have hdiv : (UInt8.ofNat (n / 256 ^ k)).toNat = n / 256 ^ k % 256 := by
        simp
      rw [hdiv, pow_succ, Nat.mod_mul]
      ring

/-- A byte string stands for a number of its width. -/
theorem beVal_lt (l : List UInt8) : beVal l < 256 ^ l.length := by
  induction l with
  | nil => simp [beVal]
  | cons b l ih =>
      have hb : b.toNat * 256 ^ l.length ≤ 255 * 256 ^ l.length :=
        Nat.mul_le_mul_right _ (Nat.le_of_lt_succ b.toNat_lt)
      rw [beVal, List.length_cons, pow_succ]
      omega

/-- Only the low `k` bytes of a number are encoded. -/
theorem beBytes_add_mul (k j a n : ℕ) : beBytes k (a * 256 ^ (k + j) + n) = beBytes k n := by
  induction k generalizing j with
  | zero => rfl
  | succ k ih =>
      have hhead : (a * 256 ^ (k + 1 + j) + n) / 256 ^ k = a * 256 ^ j * 256 + n / 256 ^ k := by
        rw [show a * 256 ^ (k + 1 + j) = 256 ^ k * (a * 256 ^ j * 256) by ring]
        exact Nat.mul_add_div (Nat.pow_pos (by decide)) _ _
      have htail : beBytes k (a * 256 ^ (k + 1 + j) + n) = beBytes k n := by
        rw [show k + 1 + j = k + (j + 1) by omega]
        exact ih (j + 1)
      rw [beBytes, beBytes, hhead, htail]
      congr 1
      apply UInt8.toNat_inj.mp
      simp only [UInt8.toNat_ofNat']
      omega

/-- **Encoding inverts decoding**: a byte string is the encoding of the number it stands
for. -/
theorem beBytes_beVal (l : List UInt8) : beBytes l.length (beVal l) = l := by
  induction l with
  | nil => rfl
  | cons b l ih =>
      have hdiv : (b.toNat * 256 ^ l.length + beVal l) / 256 ^ l.length = b.toNat := by
        rw [Nat.mul_comm, Nat.mul_add_div (Nat.pow_pos (by decide)), Nat.div_eq_of_lt (beVal_lt l),
          Nat.add_zero]
      have htail := beBytes_add_mul l.length 0 b.toNat (beVal l)
      rw [Nat.add_zero] at htail
      rw [List.length_cons, beBytes, beVal, hdiv, htail, ih]
      simp

/-- An unsigned 32-bit number as an `int`. -/
def asInt (n : ℕ) : ℤ := if n < 2 ^ 31 then n else (n : ℤ) - 2 ^ 32

/-- The bytes of a text of ASCII characters. -/
def ascii (s : String) : List UInt8 := s.toList.map fun c => UInt8.ofNat c.toNat

/-- What `std::to_string` and the decimal formats write for a number that is not negative. -/
def decimal (n : ℕ) : List UInt8 := (Nat.toDigits 10 n).map fun c => UInt8.ofNat c.toNat

theorem decimal_ne_nil (n : ℕ) : decimal n ≠ [] :=
  fun h => Nat.toDigits_ne_nil (List.map_eq_nil_iff.mp h)

/-- The decimal form consists of digits. -/
theorem digit_of_mem_decimal {n : ℕ} {b : UInt8} (h : b ∈ decimal n) : 48 ≤ b ∧ b ≤ 57 := by
  obtain ⟨c, hc, rfl⟩ := List.mem_map.mp h
  have hdigit : c.isDigit = true := Nat.isDigit_of_mem_toDigits (by decide) (by decide) hc
  simp only [Char.isDigit, Bool.and_eq_true, decide_eq_true_eq] at hdigit
  obtain ⟨hlow, hhigh⟩ := hdigit
  have hlow' : 48 ≤ c.toNat := hlow
  have hhigh' : c.toNat ≤ 57 := hhigh
  have h48 : (48 : UInt8).toNat = 48 := rfl
  have h57 : (57 : UInt8).toNat = 57 := rfl
  rw [UInt8.le_iff_toNat_le, UInt8.le_iff_toNat_le, UInt8.toNat_ofNat', h48, h57]
  omega

/-- The number that a string of digits stands for. -/
def decimalVal (l : List UInt8) : ℕ := l.foldl (fun n b => 10 * n + (b.toNat - 48)) 0

/-- **A number is read back** from its decimal form. -/
theorem decimalVal_decimal (n : ℕ) : decimalVal (decimal n) = n := by
  have hdigits : ∀ c ∈ Nat.toDigits 10 n, (UInt8.ofNat c.toNat).toNat = c.toNat := by
    intro c hc
    have hdigit : c.isDigit = true := Nat.isDigit_of_mem_toDigits (by decide) (by decide) hc
    simp only [Char.isDigit, Bool.and_eq_true, decide_eq_true_eq] at hdigit
    have hhigh : c.toNat ≤ 57 := hdigit.2
    rw [UInt8.toNat_ofNat', Nat.mod_eq_of_lt (by omega)]
  rw [decimalVal, decimal, List.foldl_map]
  refine (List.foldl_ext _ _ 0 fun m c hc => ?_).trans (Nat.ofDigitChars_ten_toDigits (n := n))
  rw [hdigits c hc]
  rfl

/-- A number is known from its decimal form. -/
theorem decimal_injective : Function.Injective decimal :=
  Function.LeftInverse.injective decimalVal_decimal

/-! ### The host's byte order -/

/-- The object representation of a `k`-byte number on a little-endian host. -/
def hostBytes (k n : ℕ) : List UInt8 := (beBytes k n).reverse

/-- The number with the given object representation. -/
def hostVal (l : List UInt8) : ℕ := beVal l.reverse

/-- The `k`-byte number with its bytes in the opposite order. -/
def byteSwap (k n : ℕ) : ℕ := beVal (hostBytes k n)

/-- The representation of the swapped number is the number in network order. -/
theorem hostBytes_byteSwap (k n : ℕ) : hostBytes k (byteSwap k n) = beBytes k n := by
  have hlen : (hostBytes k n).length = k := by simp [hostBytes]
  have hswap : beBytes k (byteSwap k n) = hostBytes k n := by
    have h := beBytes_beVal (hostBytes k n)
    rwa [hlen] at h
  rw [hostBytes, hswap, hostBytes, List.reverse_reverse]

/-- Swapping the number that was stored as the given bytes reads them in network order. -/
theorem byteSwap_hostVal (l : List UInt8) : byteSwap l.length (hostVal l) = beVal l := by
  have h := beBytes_beVal l.reverse
  rw [List.length_reverse] at h
  rw [byteSwap, hostBytes, hostVal, h, List.reverse_reverse]

/-! ### Blocks of memory -/

/-- The `len` bytes at `pos` of a block. -/
def span (mem : List UInt8) (pos len : ℕ) : List UInt8 := (mem.drop pos).take len

/-- The block after the bytes `d` have been **copied** to `pos`. -/
def memcpy (mem : List UInt8) (pos : ℕ) (d : List UInt8) : List UInt8 :=
  mem.take pos ++ d ++ mem.drop (pos + d.length)

theorem length_span {mem : List UInt8} {pos len : ℕ} (h : pos + len ≤ mem.length) :
    (span mem pos len).length = len := by
  simp only [span, List.length_take, List.length_drop]
  omega

/-- A copy inside the block keeps the size of the block. -/
theorem length_memcpy {mem d : List UInt8} {pos : ℕ} (h : pos + d.length ≤ mem.length) :
    (memcpy mem pos d).length = mem.length := by
  simp only [memcpy, List.length_append, List.length_take, List.length_drop]
  omega

/-- **A copy is read back** where it was written. -/
theorem span_memcpy_self {mem d : List UInt8} {pos : ℕ} (h : pos ≤ mem.length) :
    span (memcpy mem pos d) pos d.length = d := by
  have hlen : (mem.take pos).length = pos := List.length_take_of_le h
  rw [span, memcpy, List.append_assoc, List.drop_left' hlen, List.take_left]

/-- A copy leaves what lies **before it** alone. -/
theorem span_memcpy_before {mem d : List UInt8} {pos start len : ℕ} (h : pos ≤ mem.length)
    (hbefore : start + len ≤ pos) : span (memcpy mem pos d) start len = span mem start len := by
  have hlen : (mem.take pos).length = pos := List.length_take_of_le h
  rw [span, span, memcpy, List.append_assoc, List.drop_append_of_le_length (by omega),
    List.take_append_of_le_length (by simp only [List.length_drop]; omega), List.drop_take,
    List.take_take]
  congr 1
  omega

/-- A copy leaves what lies **behind it** alone. -/
theorem span_memcpy_behind {mem d : List UInt8} {pos start : ℕ} (len : ℕ) (h : pos ≤ mem.length)
    (hbehind : pos + d.length ≤ start) :
    span (memcpy mem pos d) start len = span mem start len := by
  have hlen : (mem.take pos ++ d).length = pos + d.length := by
    rw [List.length_append, List.length_take_of_le h]
  obtain ⟨gap, rfl⟩ := Nat.exists_eq_add_of_le hbehind
  rw [span, span, memcpy, ← List.drop_drop, List.drop_left' hlen, List.drop_drop]

/-- Two adjacent reads are one read. -/
theorem span_append (mem : List UInt8) (pos m n : ℕ) :
    span mem pos m ++ span mem (pos + m) n = span mem pos (m + n) := by
  simp only [span, ← List.drop_drop]
  exact (List.take_add ..).symm

/-- The front of a read. -/
theorem take_span (mem : List UInt8) (pos len n : ℕ) :
    (span mem pos len).take n = span mem pos (min n len) := by
  rw [span, List.take_take, span]

/-- The rest of a read is the read at the later position. -/
theorem drop_span (mem : List UInt8) (pos len n : ℕ) :
    (span mem pos len).drop n = span mem (pos + n) (len - n) := by
  rw [span, List.drop_take, List.drop_drop, span]

end Bytes

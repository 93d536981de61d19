import ArchNet.Bytes
import ArchNet.Multimap
import ArchNet.Trie
import Mathlib.Data.List.Lex

/-!
# Texts and Headers of the HTTP Client

The functions of `http/http_utils.h` that the client's requests are made with: the multimap of
headers, the percent encoding of a path, and the header fields of the two authentications.

## Conventions

A `std::string` is the list of its bytes; where the code passes `c_str()`, or stops at the first
NUL, `cstr` cuts it there. The `ctype` functions are those of the `C` locale.
-/

open Bytes

namespace ArchNet.HttpClient

open Routing (Text cstr)

/-! ### Headers -/

/-- `tolower`. -/
def toLower (c : UInt8) : UInt8 := if 65 ≤ c ∧ c ≤ 90 then c + 32 else c

/-- What `cmp` compares lexicographically. -/
def lowered (s : Text) : List ℕ := s.map fun c => (toLower c).toNat

/-- A header field: its name and its value. -/
abbrev Field := Text × Text

/-- `Headers`. -/
abbrev Headers := Multimap Text Text lowered

/-- A field of the given name, in any case. -/
def Field.named (name : Text) (f : Field) : Bool := lowered f.1 = lowered name

/-- `has_header`. -/
def hasHeader (headers : Headers) (key : Text) : Bool := headers.contains key

theorem hasHeader_iff {headers : Headers} {key : Text} :
    hasHeader headers key = true ↔ ∃ f ∈ headers.items, Field.named key f = true := by
  simp [hasHeader, Multimap.contains_iff, Field.named]

/-- `emplace`, unless the name is there. -/
def supply (headers : Headers) (key value : Text) : Headers :=
  if hasHeader headers key then headers else headers.emplace key value

/-! ### The percent encoding of a path -/

/-- A digit of `%02X`. -/
def upperHex (n : ℕ) : UInt8 := UInt8.ofNat (if n < 10 then 48 + n else 55 + n)

/-- A percent sign and the two digits of a byte. -/
def percent (c : UInt8) : Text := [37, upperHex (c.toNat / 16), upperHex (c.toNat % 16)]

/-- The `switch` of `encode_url`: blanks, `+`, line breaks, quotes, `,` and `;` are encoded, and
what is not ASCII. -/
def encodeUrlByte (c : UInt8) : Text :=
  if c = 32 ∨ c = 43 ∨ c = 13 ∨ c = 10 ∨ c = 39 ∨ c = 44 ∨ c = 59 ∨ 128 ≤ c then percent c
  else [c]

/-- `encode_url`: it stops at the first NUL. -/
def encodeUrl (s : Text) : Text := (cstr s).flatMap encodeUrlByte

/-! ### Authentication -/

def base64Lookup : Text :=
  ascii "ABCDEFGHIJKLMNOPQRSTUVWXYZabcdefghijklmnopqrstuvwxyz0123456789+/"

/-- `lookup[n & 0x3F]`. -/
def base64Digit (n : ℕ) : UInt8 := base64Lookup.getD (n % 64) 0

/-- The inner loop of `base64_encode`, which a byte runs through at most twice. -/
def base64Digits (val : ℕ) : ℕ → ℤ → Text × ℤ
  | 0, valb => ([], valb)
  | steps + 1, valb =>
      if 0 ≤ valb then
        let (digits, valb') := base64Digits val steps (valb - 6)
        (base64Digit (val >>> valb.toNat) :: digits, valb')
      else ([], valb)

/-- The loop over the bytes and what follows it; `val` is an `int`. -/
def base64Loop : Text → ℕ → ℤ → Text
  | [], val, valb =>
      if -6 < valb then [base64Digit ((val <<< 8) >>> (valb + 8).toNat)] else []
  | c :: s, val, valb =>
      let val := (val <<< 8 + c.toNat) % 2 ^ 32
      let (digits, valb) := base64Digits val 2 (valb + 8)
      digits ++ base64Loop s val valb

/-- `base64_encode`. -/
def base64Encode (s : Text) : Text :=
  let out := base64Loop s 0 (-6)
  out ++ List.replicate ((4 - out.length % 4) % 4) 61

/-- `make_basic_authentication_header`, not for a proxy. -/
def makeBasicAuthenticationHeader (username password : Text) : Field :=
  (ascii "Authorization", ascii "Basic " ++ base64Encode (username ++ ascii ":" ++ password))

/-- `make_bearer_token_authentication_header`, not for a proxy. -/
def makeBearerTokenAuthenticationHeader (token : Text) : Field :=
  (ascii "Authorization", ascii "Bearer " ++ token)

end ArchNet.HttpClient

import Mathlib.Data.List.Basic
import Mathlib.Data.Nat.Basic

/-!
# Endpoints as Keys

`EndPoint` of `socket_stream.h` is the key of two hash containers. Its equality compares the
128 bytes of the socket address with `memcmp`, and returns what `memcmp` returns: a value
that is zero for equal bytes and converts to `false` there.

## Main results

* `EndPoint.eq_iff`: **the equality test is inverted** — it holds of two endpoints exactly
  when their socket addresses differ.
-/

namespace ArchNet

/-- `struct sockaddr_storage`, as its bytes. -/
@[ext] structure SockAddr where
  bytes : List UInt8
  size : bytes.length = 128
  deriving DecidableEq

/-- `struct EndPoint`, with the one field that its equality and its hash read. -/
structure EndPoint where
  sockAddr : SockAddr
  deriving DecidableEq

/-- `memcmp` on two regions of the same size: the difference of the first two bytes that
differ. -/
def memcmp : List UInt8 → List UInt8 → ℤ
  | a :: as, b :: bs => if a = b then memcmp as bs else (a.toNat : ℤ) - b.toNat
  | _, _ => 0

/-- `memcmp` answers zero exactly for equal bytes. -/
theorem memcmp_eq_zero {as bs : List UInt8} (h : as.length = bs.length) :
    memcmp as bs = 0 ↔ as = bs := by
  induction as generalizing bs with
  | nil =>
      cases bs with
      | nil => simp [memcmp]
      | cons b bs => simp at h
  | cons a as ih =>
      cases bs with
      | nil => simp at h
      | cons b bs =>
          have hlen : as.length = bs.length := by simpa using h
          rw [memcmp]
          split
          · next hab => simp [hab, ih hlen]
          · next hab =>
              have hne : a.toNat ≠ b.toNat := fun heq => hab (UInt8.toNat_inj.mp heq)
              refine ⟨fun hz => absurd hz (by omega), fun heq => ?_⟩
              exact absurd (List.cons.inj heq).1 hab

namespace EndPoint

/-- `operator==`: the value of `memcmp`, as a truth value. -/
def eq (s₁ s₂ : EndPoint) : Bool := memcmp s₁.sockAddr.bytes s₂.sockAddr.bytes != 0

/-- **The equality test is inverted.** -/
theorem eq_iff {s₁ s₂ : EndPoint} : eq s₁ s₂ = true ↔ s₁.sockAddr ≠ s₂.sockAddr := by
  have hlen : s₁.sockAddr.bytes.length = s₂.sockAddr.bytes.length :=
    s₁.sockAddr.size.trans s₂.sockAddr.size.symm
  rw [eq, bne_iff_ne, ne_eq, memcmp_eq_zero hlen, ne_eq, SockAddr.ext_iff]

/-- `std::hash<EndPoint>`: the hash of the address bytes as a string. -/
def hash (hashString : List UInt8 → UInt64) (ep : EndPoint) : UInt64 :=
  hashString ep.sockAddr.bytes

/-- Endpoints with the same address have the same hash. -/
theorem hash_congr {hashString : List UInt8 → UInt64} {s₁ s₂ : EndPoint}
    (h : s₁.sockAddr = s₂.sockAddr) : s₁.hash hashString = s₂.hash hashString := by
  rw [hash, hash, h]

end EndPoint

end ArchNet

import Mathlib.Data.List.Basic
import Mathlib.Data.Nat.Basic

/-!
# The Receiving End of a Socket, and the Exact Read Loop

A `Source` is what a connected `ISocketStream` offers to `recv`: the bytes the peer has
sent and nobody has read yet, a list of segmentation choices, and how the stream ends once
the bytes are used up. A call `recv(count)` with `count ≥ 1` hands over between one and
`count` of the waiting bytes — how many is the next segmentation choice — and every such
segmentation is some choice list.

`readNFromSocketStream` is the loop of `Buffer::ReadNFromSocketStream`: it asks for what
is still missing until nothing is missing or `recv` answers a value `≤ 0`. A buffer is
seen here through its unread bytes, so the loop returns the bytes it appends.

## Main results

* `readNFromSocketStream_eq`: **segmentation does not matter** — with `n ≥ 1` bytes
  waiting the loop returns `n` and exactly the first `n` of them, whatever the choices.
* `readNFromSocketStream_zero`: a request for zero bytes answers `0`, the value of a
  closed connection.
* `readNFromSocketStream_short`: with fewer bytes waiting, all of them are appended and
  the end of the stream is passed on.
-/

namespace ArchNet

/-- How a stream of bytes ends: the peer has closed it, or the socket reports an error. -/
inductive StreamEnd
  | eof
  | error
  deriving Repr, DecidableEq

/-- What `recv` answers at the end of the stream. -/
def StreamEnd.answer : StreamEnd → ℤ
  | eof => 0
  | error => -1

/-- The end of a stream is never answered by a byte count. -/
theorem StreamEnd.answer_le (e : StreamEnd) : e.answer ≤ 0 := by
  cases e <;> decide

/-- What a connected socket offers to `recv`. `bytes` are sent and unread; `cuts` are the
segmentation choices, one for each `recv` that finds bytes (a full read once the list is
used up); `ending` is how the stream ends when no bytes are left, `none` while `recv`
blocks. -/
structure Source where
  bytes : List UInt8
  cuts : List ℕ := []
  ending : Option StreamEnd := none
  deriving Repr, DecidableEq

namespace Source

/-- `ISocketStream::recv(buf, count)`: the answer, the bytes stored, and the stream left
behind; `none` when the call blocks. As `read(2)`, a request for zero bytes answers `0`. -/
def recv (src : Source) (count : ℕ) : Option (ℤ × List UInt8 × Source) :=
  if count = 0 then some (0, [], src)
  else if src.bytes = [] then src.ending.map fun e => (e.answer, [], src)
  else
    let n := min count (min src.bytes.length (src.cuts.headD count + 1))
    some (n, src.bytes.take n,
      { src with bytes := src.bytes.drop n, cuts := src.cuts.tail })

/-- A `recv` waits while there are no bytes and the stream goes on. -/
theorem recv_blocks {src : Source} {count : ℕ} (hc : count ≠ 0) (hb : src.bytes = [])
    (hend : src.ending = none) : src.recv count = none := by
  rw [recv, if_neg hc, if_pos hb, hend, Option.map_none]

/-- A `recv` that finds bytes returns at least one and at most `count` of them, and takes
exactly these from the stream. -/
theorem recv_of_ne_nil {src : Source} {count : ℕ} (hc : count ≠ 0) (hb : src.bytes ≠ []) :
    ∃ n cuts, 0 < n ∧ n ≤ count ∧ n ≤ src.bytes.length ∧
      src.recv count = some ((n : ℤ), src.bytes.take n,
        { src with bytes := src.bytes.drop n, cuts := cuts }) := by
  have hlen : 0 < src.bytes.length := List.length_pos_iff.mpr hb
  refine ⟨min count (min src.bytes.length (src.cuts.headD count + 1)), src.cuts.tail,
    by omega, by omega, by omega, ?_⟩
  rw [recv, if_neg hc, if_neg hb]

/-- A `recv` whose segmentation choice does not cut into the request is answered whole. -/
theorem recv_whole {src : Source} {count : ℕ} (hc : count ≠ 0)
    (hlen : count ≤ src.bytes.length) (hcut : count ≤ src.cuts.headD count + 1) :
    src.recv count = some ((count : ℤ), src.bytes.take count,
      { src with bytes := src.bytes.drop count, cuts := src.cuts.tail }) := by
  have hb : src.bytes ≠ [] := List.length_pos_iff.mp (by omega)
  have hn : min count (min src.bytes.length (src.cuts.headD count + 1)) = count := by omega
  rw [recv, if_neg hc, if_neg hb]
  simp only [hn]

/-- A `recv` whose segmentation choice cuts into the request returns fewer bytes than were
asked for and waiting. -/
theorem recv_cut {src : Source} {count : ℕ} (hlen : count ≤ src.bytes.length)
    (hcut : ¬ count ≤ src.cuts.headD count + 1) :
    ∃ n, 0 < n ∧ n < count ∧ src.recv count = some ((n : ℤ), src.bytes.take n,
      { src with bytes := src.bytes.drop n, cuts := src.cuts.tail }) := by
  have hc : count ≠ 0 := by omega
  have hb : src.bytes ≠ [] := List.length_pos_iff.mp (by omega)
  refine ⟨src.cuts.headD count + 1, by omega, by omega, ?_⟩
  have hn : min count (min src.bytes.length (src.cuts.headD count + 1))
      = src.cuts.headD count + 1 := by omega
  rw [recv, if_neg hc, if_neg hb]
  simp only [hn]

/-- On a stream that ends with the peer's close a `recv` always answers a byte count, `0`
once the bytes are used up. -/
theorem recv_eof {src : Source} (heof : src.ending = some .eof) (count : ℕ) :
    ∃ n cuts, n ≤ count ∧ src.recv count = some ((n : ℤ), src.bytes.take n,
      { src with bytes := src.bytes.drop n, cuts := cuts }) := by
  by_cases hc : count = 0
  · exact ⟨0, src.cuts, by omega, by simp [recv, hc]⟩
  · by_cases hb : src.bytes = []
    · obtain ⟨bytes, cuts, ending⟩ := src
      obtain rfl : bytes = [] := hb
      obtain rfl : ending = some .eof := heof
      exact ⟨0, cuts, by omega, by simp [recv, hc, StreamEnd.answer]⟩
    · obtain ⟨n, cuts, _, hle, _, h⟩ := recv_of_ne_nil hc hb
      exact ⟨n, cuts, hle, h⟩

/-- The choices left after a `recv` are some of those there before. -/
theorem recv_cuts {src : Source} {count : ℕ} {res : ℤ × List UInt8 × Source}
    (h : src.recv count = some res) : res.2.2.cuts <:+ src.cuts := by
  rw [recv] at h
  split_ifs at h
  · obtain rfl := Option.some.inj h
    exact List.suffix_rfl
  · obtain ⟨_, -, rfl⟩ := Option.map_eq_some_iff.mp h
    exact List.suffix_rfl
  · obtain rfl := Option.some.inj h
    exact List.tail_suffix _

end Source

/-- The loop of `Buffer::ReadNFromSocketStream`: `readn` is the size first asked for,
`size` what is still missing, `got` what has been appended. The fuel bounds the rounds; a
round that stores nothing ends the loop, so `size + 1` rounds are enough. -/
def readLoop (readn : ℕ) : ℕ → Source → ℕ → List UInt8 → Option (ℤ × List UInt8 × Source)
  | 0, _, _, _ => none
  | fuel + 1, src, size, got => do
      let (n, chunk, src') ← src.recv size
      if n ≤ 0 then some (n, got, src')
      else
        let size' := size - n.toNat
        if size' = 0 then some (readn, got ++ chunk, src')
        else readLoop readn fuel src' size' (got ++ chunk)

/-- `Buffer::ReadNFromSocketStream(stream, size)`: the returned value, the bytes appended
to the buffer, and the stream left behind; `none` while the read blocks. -/
def readNFromSocketStream (src : Source) (size : ℕ) : Option (ℤ × List UInt8 × Source) :=
  readLoop size (size + 1) src size []

/-! ### What the loop returns -/

/-- The loop with enough bytes waiting, from any point of its run. -/
theorem readLoop_eq (readn fuel : ℕ) {size : ℕ} (src : Source) (got : List UInt8)
    (hpos : 0 < size) (hfuel : size ≤ fuel) (hlen : size ≤ src.bytes.length) :
    ∃ cuts, readLoop readn fuel src size got =
      some ((readn : ℤ), got ++ src.bytes.take size,
        { src with bytes := src.bytes.drop size, cuts := cuts }) := by
  induction fuel generalizing src size got with
  | zero => omega
  | succ fuel ih =>
      have hb : src.bytes ≠ [] := List.length_pos_iff.mp (by omega)
      obtain ⟨n, cuts, hn, hns, hnl, hrecv⟩ := src.recv_of_ne_nil (by omega : size ≠ 0) hb
      have hnot : ¬ ((n : ℤ) ≤ 0) := by omega
      simp only [readLoop, hrecv, Option.bind_eq_bind, Option.bind_some, if_neg hnot,
        Int.toNat_natCast]
      by_cases hdone : size - n = 0
      · obtain rfl : n = size := by omega
        exact ⟨cuts, by rw [if_pos hdone]⟩
      · rw [if_neg hdone]
        -- the rest of the request is read from what the first `recv` left behind
        obtain ⟨cuts', hrest⟩ := ih
          { src with bytes := src.bytes.drop n, cuts := cuts }
          (got ++ src.bytes.take n) (by omega : 0 < size - n) (by omega)
          (by simp only [List.length_drop]; omega)
        refine ⟨cuts', ?_⟩
        rw [hrest]
        have htake : src.bytes.take n ++ (src.bytes.drop n).take (size - n)
            = src.bytes.take size := by
          rw [← List.take_add]
          congr 1
          omega
        simp only [List.append_assoc, htake, List.drop_drop]
        rw [show n + (size - n) = size by omega]

/-- **Segmentation does not matter**: with `n ≥ 1` bytes waiting, the loop returns `n`,
appends exactly the first `n` of them and leaves the rest. -/
theorem readNFromSocketStream_eq {src : Source} {n : ℕ} (hpos : 0 < n)
    (hlen : n ≤ src.bytes.length) :
    ∃ cuts, readNFromSocketStream src n =
      some ((n : ℤ), src.bytes.take n,
        { src with bytes := src.bytes.drop n, cuts := cuts }) := by
  obtain ⟨cuts, h⟩ := readLoop_eq n (n + 1) src [] hpos (by omega) hlen
  exact ⟨cuts, by rw [readNFromSocketStream, h, List.nil_append]⟩

/-- A read that is answered whole by its first `recv` uses up one segmentation choice. -/
theorem readNFromSocketStream_whole {src : Source} {n : ℕ} (hpos : 0 < n)
    (hlen : n ≤ src.bytes.length) (hcut : n ≤ src.cuts.headD n + 1) :
    readNFromSocketStream src n =
      some ((n : ℤ), src.bytes.take n,
        { src with bytes := src.bytes.drop n, cuts := src.cuts.tail }) := by
  have hnot : ¬ ((n : ℤ) ≤ 0) := by omega
  simp only [readNFromSocketStream, readLoop, Source.recv_whole (by omega) hlen hcut,
    Option.bind_eq_bind, Option.bind_some, if_neg hnot, Int.toNat_natCast, Nat.sub_self,
    if_true, List.nil_append]

/-- The choices left after the loop are some of those there before. -/
theorem readLoop_cuts (readn fuel : ℕ) {size : ℕ} {src : Source} {got : List UInt8}
    {res : ℤ × List UInt8 × Source} (h : readLoop readn fuel src size got = some res) :
    res.2.2.cuts <:+ src.cuts := by
  induction fuel generalizing src size got with
  | zero => simp [readLoop] at h
  | succ fuel ih =>
      simp only [readLoop, Option.bind_eq_bind, Option.bind_eq_some_iff] at h
      obtain ⟨⟨n, chunk, src'⟩, hrecv, h⟩ := h
      have hsrc : src'.cuts <:+ src.cuts := Source.recv_cuts hrecv
      simp only at h
      split_ifs at h
      · obtain rfl := Option.some.inj h
        exact hsrc
      · obtain rfl := Option.some.inj h
        exact hsrc
      · exact (ih h).trans hsrc

/-- The choices left after a read are some of those there before. -/
theorem readNFromSocketStream_cuts {src : Source} {n : ℕ} {res : ℤ × List UInt8 × Source}
    (h : readNFromSocketStream src n = some res) : res.2.2.cuts <:+ src.cuts :=
  readLoop_cuts n (n + 1) h

/-- A request for zero bytes answers `0` at once and reads nothing. -/
theorem readNFromSocketStream_zero (src : Source) :
    readNFromSocketStream src 0 = some (0, [], src) := by
  simp [readNFromSocketStream, readLoop, Source.recv]

/-- The loop with too few bytes waiting, from any point of its run: everything there is
has been appended when the end of the stream is passed on. -/
theorem readLoop_short (readn fuel : ℕ) {size : ℕ} (src : Source) (got : List UInt8)
    (hfuel : src.bytes.length < fuel) (hlen : src.bytes.length < size)
    {res : ℤ × List UInt8 × Source} (h : readLoop readn fuel src size got = some res) :
    ∃ e cuts, src.ending = some e ∧
      res = (e.answer, got ++ src.bytes, { src with bytes := [], cuts := cuts }) := by
  induction fuel generalizing src size got with
  | zero => omega
  | succ fuel ih =>
      by_cases hb : src.bytes = []
      · have hsize : size ≠ 0 := by omega
        rw [readLoop, Source.recv, if_neg hsize, if_pos hb] at h
        cases he : src.ending with
        | none => simp [he] at h
        | some e =>
            simp only [he, Option.map_some, Option.bind_eq_bind, Option.bind_some,
              if_pos e.answer_le, Option.some.injEq] at h
            subst h
            exact ⟨e, src.cuts, rfl, by rw [hb, List.append_nil, ← hb, ← he]⟩
      · obtain ⟨n, cuts, hn, hns, hnl, hrecv⟩ :=
          src.recv_of_ne_nil (by omega : size ≠ 0) hb
        have hnot : ¬ ((n : ℤ) ≤ 0) := by omega
        have hmore : size - n ≠ 0 := by omega
        simp only [readLoop, hrecv, Option.bind_eq_bind, Option.bind_some, if_neg hnot,
          Int.toNat_natCast, if_neg hmore] at h
        obtain ⟨e, cuts', he, hres⟩ := ih
          { src with bytes := src.bytes.drop n, cuts := cuts }
          (got ++ src.bytes.take n) (by simp only [List.length_drop]; omega)
          (by simp only [List.length_drop]; omega) h
        refine ⟨e, cuts', he, ?_⟩
        rw [hres, List.append_assoc, List.take_append_drop]

/-- **A short read**: with fewer bytes waiting than asked for, a read that returns has
appended all of them and passes on the end of the stream. -/
theorem readNFromSocketStream_short {src : Source} {n : ℕ} (hlen : src.bytes.length < n)
    {res : ℤ × List UInt8 × Source} (h : readNFromSocketStream src n = some res) :
    ∃ e cuts, src.ending = some e ∧
      res = (e.answer, src.bytes, { src with bytes := [], cuts := cuts }) := by
  obtain ⟨e, cuts, he, hres⟩ := readLoop_short n (n + 1) src [] (by omega) hlen h
  exact ⟨e, cuts, he, by rw [hres, List.nil_append]⟩

end ArchNet

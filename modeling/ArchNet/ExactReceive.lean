import ArchNet.Bytes

/-!
# Receiving an Exact Number of Bytes

`ClientConnection::future_recv_message(void*, size_t)`, which `recv_message` and the thrift
transport wait for, calls `recv` until `len` bytes have come. Both the answer of `recv` and the
number of bytes so far are kept in a `uint32_t`: of the answers that are not positive the loop
sees only those that are zero there, and a negative one moves the offset back.

## Conventions

* `recv` answers the number of bytes that it has stored, at least one and at most as many as were
  asked for, or a value that is not positive; the answers are given in advance. A loop that has
  used them up waits in `recv`.
* The block at `buf` is seen through what is written to it, offset and bytes.

## Main results

* `writes_inside`: no write leaves `buf[0..len)`, whatever `recv` answers.
* `futureRecvMessage_data`: what the loop does with bytes, for any lengths.
* `exact_iff`: **when the receive is exact** — for requests below `2 ^ 32`, when the stream ends
  with an answer of zero.
-/

namespace ArchNet

open Bytes

namespace ExactReceive

/-- What `recv` comes to: it has stored bytes and answers how many, or it answers a value that is
not positive. -/
inductive Answer
  | data (chunk : List UInt8)
  | stop (r : ℤ)
  deriving DecidableEq, Repr

/-- The answer, converted to `uint32_t`. -/
def Answer.converted : Answer → ℕ
  | data chunk => chunk.length % 2 ^ 32
  | stop r => (r % 2 ^ 32).toNat

/-- What the call has written, at the address it was given. -/
def Answer.writes (offset : ℕ) : Answer → List (ℕ × List UInt8)
  | data chunk => [(offset, chunk)]
  | stop _ => []

/-- What the promise is set to. -/
inductive Completion
  | kSuccess (value : ℕ)
  | kError (value : ℕ)
  deriving DecidableEq, Repr

/-- The loop of `future_recv_message`, with `sent` bytes counted: what the promise is set to,
`none` while it waits in `recv`, and what was written to `buf`. -/
def futureRecvMessage (len : ℕ) :
    List Answer → ℕ → Option Completion × List (ℕ × List UInt8)
  | [], sent => if sent < len then (none, []) else (some (.kSuccess sent), [])
  | a :: as, sent =>
      if sent < len then
        if a.converted = 0 then (some (.kError 0), a.writes sent)
        else
          let (completion, writes) := futureRecvMessage len as ((sent + a.converted) % 2 ^ 32)
          (completion, a.writes sent ++ writes)
      else (some (.kSuccess sent), [])

/-- The block after the writes. -/
def image (buf : List UInt8) (writes : List (ℕ × List UInt8)) : List UInt8 :=
  writes.foldl (fun buf w => memcpy buf w.1 w.2) buf

/-! ### Writes -/

/-- The answers are those of a `recv` that is asked for what the loop asks it for. -/
def Conform (len : ℕ) : List Answer → ℕ → Prop
  | [], _ => True
  | a :: as, sent =>
      sent < len →
        (match a with
          | .data chunk => chunk ≠ [] ∧ chunk.length ≤ len - sent
          | .stop r => r ≤ 0) ∧
        Conform len as ((sent + a.converted) % 2 ^ 32)

/-- **No write leaves the block**, whatever `recv` answers, as long as it stores no more than it
was asked for. -/
theorem writes_inside {len : ℕ} {as : List Answer} {sent : ℕ} (h : Conform len as sent) :
    ∀ w ∈ (futureRecvMessage len as sent).2, w.1 + w.2.length ≤ len := by
  induction as generalizing sent with
  | nil =>
      rw [futureRecvMessage]
      split_ifs <;> simp
  | cons a as ih =>
      rw [futureRecvMessage]
      by_cases hlt : sent < len
      · obtain ⟨ha, hrest⟩ := h hlt
        have hhead : ∀ w ∈ a.writes sent, w.1 + w.2.length ≤ len := by
          cases a with
          | stop r => simp [Answer.writes]
          | data chunk =>
              have := ha.2
              simp only [Answer.writes, List.mem_singleton, forall_eq]
              omega
        rw [if_pos hlt]
        split_ifs
        · exact hhead
        · exact List.forall_mem_append.mpr ⟨hhead, ih hrest⟩
      · rw [if_neg hlt]
        simp

/-! ### What the loop does with bytes -/

/-- Where the loop puts chunks of bytes, `t` bytes after the start. -/
def placed : ℕ → List (List UInt8) → List (ℕ × List UInt8)
  | _, [] => []
  | t, chunk :: chunks => (t % 2 ^ 32, chunk) :: placed (t + chunk.length) chunks

/-- **Bytes, as long as they are wanted.** If none of the answers is zero as a `uint32_t`, the loop
goes on behind them; otherwise it ends there. -/
theorem futureRecvMessage_data {len : ℕ} (as : List Answer) {chunks : List (List UInt8)} {t : ℕ}
    (hne : ∀ c ∈ chunks, c ≠ []) (hle : t + chunks.flatten.length ≤ len) :
    ((∀ c ∈ chunks, c.length % 2 ^ 32 ≠ 0) →
      futureRecvMessage len (chunks.map .data ++ as) (t % 2 ^ 32) =
        ((futureRecvMessage len as ((t + chunks.flatten.length) % 2 ^ 32)).1,
          placed t chunks ++
            (futureRecvMessage len as ((t + chunks.flatten.length) % 2 ^ 32)).2)) ∧
    ((∃ c ∈ chunks, c.length % 2 ^ 32 = 0) →
      (futureRecvMessage len (chunks.map .data ++ as) (t % 2 ^ 32)).1 = some (.kError 0)) := by
  induction chunks generalizing t with
  | nil => simp [placed]
  | cons c chunks ih =>
      obtain ⟨hc, hne⟩ := List.forall_mem_cons.mp hne
      have hpos := List.length_pos_iff.mpr hc
      have hmod := Nat.mod_le t (2 ^ 32)
      rw [List.flatten_cons, List.length_append] at hle ⊢
      have hlt : t % 2 ^ 32 < len := by omega
      have hnext : (t % 2 ^ 32 + c.length % 2 ^ 32) % 2 ^ 32 = (t + c.length) % 2 ^ 32 :=
        (Nat.add_mod ..).symm
      obtain ⟨hgood, hbad⟩ := ih hne (by omega : t + c.length + chunks.flatten.length ≤ len)
      rw [List.map_cons, List.cons_append, futureRecvMessage, if_pos hlt, ← Nat.add_assoc]
      simp only [Answer.converted, Answer.writes, hnext]
      constructor
      · intro hall
        obtain ⟨hc0, hall⟩ := List.forall_mem_cons.mp hall
        rw [if_neg hc0, hgood hall]
        rfl
      · intro hsome
        by_cases hc0 : c.length % 2 ^ 32 = 0
        · rw [if_pos hc0]
        · rw [if_neg hc0]
          obtain ⟨c', hc', h0⟩ := hsome
          obtain rfl | hc' := List.mem_cons.mp hc'
          · exact absurd h0 hc0
          · exact hbad ⟨c', hc', h0⟩

/-- Chunks put one behind the other fill the block. -/
theorem image_placed {chunks : List (List UInt8)} {buf : List UInt8} {t : ℕ}
    (hlen : buf.length = t + chunks.flatten.length) (h32 : buf.length < 2 ^ 32) :
    image buf (placed t chunks) = buf.take t ++ chunks.flatten := by
  induction chunks generalizing buf t with
  | nil =>
      rw [List.flatten_nil, List.length_nil, Nat.add_zero] at hlen
      simp [placed, image, ← hlen]
  | cons c chunks ih =>
      rw [List.flatten_cons, List.length_append] at hlen
      have hcopy := @length_memcpy buf c t (by omega)
      have hstep : image buf (placed t (c :: chunks)) =
          image (memcpy buf t c) (placed (t + c.length) chunks) := by
        rw [placed, Nat.mod_eq_of_lt (by omega)]
        rfl
      have hfront : (memcpy buf t c).take (t + c.length) = buf.take t ++ c := by
        rw [memcpy]
        exact List.take_left' (by rw [List.length_append, List.length_take_of_le (by omega)])
      rw [hstep, ih (by omega) (by omega), hfront, List.flatten_cons, List.append_assoc]

/-- **An answer that is not positive** ends the receive exactly when it is zero as a `uint32_t`. -/
theorem futureRecvMessage_stop {len sent : ℕ} (hlt : sent < len) (r : ℤ) :
    (∃ v, (futureRecvMessage len [.stop r] sent).1 = some (.kError v)) ↔ r % 2 ^ 32 = 0 := by
  rw [futureRecvMessage, if_pos hlt, Answer.converted]
  by_cases hr : r % 2 ^ 32 = 0
  · have hr' : (r % 2 ^ 32).toNat = 0 := by omega
    rw [if_pos hr']
    exact iff_of_true ⟨0, rfl⟩ hr
  · have hr' : ¬ (r % 2 ^ 32).toNat = 0 := by omega
    rw [if_neg hr', futureRecvMessage]
    refine iff_of_false ?_ hr
    rintro ⟨v, hv⟩
    split_ifs at hv
    cases hv

/-! ### When the receive is exact -/

/-- **What comes in** for a request of `len` bytes: the bytes, cut in any way, and at which answer
that is not positive they end, if they do before they are `len`. -/
structure Incoming (len : ℕ) where
  chunks : List (List UInt8)
  stop : Option ℤ
  chunks_ne : ∀ c ∈ chunks, c ≠ []
  complete : stop = none → chunks.flatten.length = len
  short : stop ≠ none → chunks.flatten.length < len
  nonpos : ∀ r ∈ stop, r ≤ 0

namespace Incoming

variable {len : ℕ}

/-- The answers of `recv`. -/
def answers (x : Incoming len) : List Answer :=
  x.chunks.map .data ++ x.stop.toList.map .stop

/-- The receive is **exact**: it does not leave the block; when all bytes have come, it ends with
`kSuccess` and their number, and they are in the block in their order; when an answer that is not
positive comes before, it ends with `kError`. -/
def Exact (x : Incoming len) : Prop :=
  (∀ w ∈ (futureRecvMessage len x.answers 0).2, w.1 + w.2.length ≤ len) ∧
  (x.stop = none → (futureRecvMessage len x.answers 0).1 = some (.kSuccess len) ∧
    ∀ buf : List UInt8, buf.length = len →
      image buf (futureRecvMessage len x.answers 0).2 = x.chunks.flatten) ∧
  (x.stop ≠ none → ∃ v, (futureRecvMessage len x.answers 0).1 = some (.kError v))

theorem length_le (x : Incoming len) : x.chunks.flatten.length ≤ len := by
  by_cases hstop : x.stop = none
  · exact (x.complete hstop).le
  · exact (x.short hstop).le

/-- Bytes that are wanted conform. -/
theorem conform_data {as : List Answer} {chunks : List (List UInt8)} {t : ℕ}
    (hne : ∀ c ∈ chunks, c ≠ []) (hle : t + chunks.flatten.length ≤ len)
    (has : Conform len as ((t + chunks.flatten.length) % 2 ^ 32)) :
    Conform len (chunks.map .data ++ as) (t % 2 ^ 32) := by
  induction chunks generalizing t with
  | nil => simpa using has
  | cons c chunks ih =>
      obtain ⟨hc, hne⟩ := List.forall_mem_cons.mp hne
      rw [List.flatten_cons, List.length_append] at hle has
      have hmod := Nat.mod_le t (2 ^ 32)
      intro _
      refine ⟨⟨hc, by omega⟩, ?_⟩
      have hnext : (t % 2 ^ 32 + c.length % 2 ^ 32) % 2 ^ 32 = (t + c.length) % 2 ^ 32 :=
        (Nat.add_mod ..).symm
      simp only [Answer.converted, hnext]
      exact ih hne (by omega) (by rwa [Nat.add_assoc])

theorem conform (x : Incoming len) : Conform len x.answers 0 := by
  have hdata := @conform_data len (x.stop.toList.map .stop) x.chunks 0 x.chunks_ne
    (by rw [Nat.zero_add]; exact x.length_le)
  refine hdata ?_
  cases hstop : x.stop with
  | none => trivial
  | some r => exact fun _ => ⟨x.nonpos r hstop, trivial⟩

/-- When all bytes have come. -/
theorem exact_complete_iff {x : Incoming len} (hstop : x.stop = none) :
    x.Exact ↔ len < 2 ^ 32 := by
  have hinside := writes_inside x.conform
  have htotal := x.complete hstop
  have hanswers : x.answers = x.chunks.map .data ++ [] := by rw [answers, hstop]; rfl
  rw [hanswers] at hinside
  obtain ⟨hgood, hbad⟩ := @futureRecvMessage_data len [] x.chunks 0 x.chunks_ne (by omega)
  rw [Nat.zero_add, Nat.zero_mod, htotal] at hgood
  rw [Nat.zero_mod] at hbad
  rw [Exact, hanswers]
  constructor
  · rintro ⟨-, hcomplete, -⟩
    obtain ⟨hsuccess, -⟩ := hcomplete hstop
    by_contra h32
    by_cases hzero : ∃ c ∈ x.chunks, c.length % 2 ^ 32 = 0
    · rw [hbad hzero] at hsuccess
      cases hsuccess
    · -- every byte has been taken, but the counter has started again
      have hlt : len % 2 ^ 32 < len := by omega
      rw [hgood fun c hc h0 => hzero ⟨c, hc, h0⟩, futureRecvMessage, if_pos hlt] at hsuccess
      cases hsuccess
  · intro h32
    have hnz : ∀ c ∈ x.chunks, c.length % 2 ^ 32 ≠ 0 := by
      intro c hc
      have hpos := List.length_pos_iff.mpr (x.chunks_ne c hc)
      have hle := (List.sublist_flatten_of_mem hc).length_le
      omega
    have hrun := hgood hnz
    rw [Nat.mod_eq_of_lt h32, futureRecvMessage, if_neg (lt_irrefl len)] at hrun
    refine ⟨hinside, fun _ => ?_, fun h => absurd hstop h⟩
    rw [hrun]
    refine ⟨rfl, fun buf hbuf => ?_⟩
    have himage := @image_placed x.chunks buf 0 (by omega) (by omega)
    rwa [List.take_zero, List.nil_append, ← List.append_nil (placed 0 x.chunks)] at himage

/-- When an answer that is not positive has come before. -/
theorem exact_stopped_iff {x : Incoming len} {r : ℤ} (hstop : x.stop = some r) :
    x.Exact ↔ r % 2 ^ 32 = 0 ∨ ∃ c ∈ x.chunks, c.length % 2 ^ 32 = 0 := by
  have hne : x.stop ≠ none := by
    rw [hstop]
    exact Option.some_ne_none r
  have hshort := x.short hne
  have hanswers : x.answers = x.chunks.map .data ++ [.stop r] := by rw [answers, hstop]; rfl
  obtain ⟨hgood, hbad⟩ := @futureRecvMessage_data len [.stop r] x.chunks 0 x.chunks_ne (by omega)
  rw [Nat.zero_add, Nat.zero_mod] at hgood
  rw [Nat.zero_mod] at hbad
  have herror : x.Exact ↔ ∃ v, (futureRecvMessage len x.answers 0).1 = some (.kError v) := by
    rw [Exact, and_iff_right (writes_inside x.conform), and_iff_right fun h => absurd h hne]
    exact forall_prop_of_true hne
  rw [herror, hanswers]
  by_cases hzero : ∃ c ∈ x.chunks, c.length % 2 ^ 32 = 0
  · exact iff_of_true ⟨0, hbad hzero⟩ (.inr hzero)
  · have hmod := Nat.mod_le x.chunks.flatten.length (2 ^ 32)
    rw [hgood fun c hc h0 => hzero ⟨c, hc, h0⟩, or_iff_left hzero]
    exact futureRecvMessage_stop (by omega) r

/-- **When the receive is exact**: when all bytes have come, exactly for requests below `2 ^ 32`;
when the stream has ended before, exactly if the answer at its end is a multiple of `2 ^ 32`, as
zero is, or the length of a piece was one. -/
theorem exact_iff (x : Incoming len) :
    x.Exact ↔ (x.stop = none ∧ len < 2 ^ 32) ∨
      ∃ r, x.stop = some r ∧ (r % 2 ^ 32 = 0 ∨ ∃ c ∈ x.chunks, c.length % 2 ^ 32 = 0) := by
  cases hstop : x.stop with
  | none => simp [exact_complete_iff hstop]
  | some r => simp [exact_stopped_iff hstop]

/-- Two bytes of four, and then an error: the loop counts one byte and asks again. Without any
byte the error is a success of `2 ^ 32 - 1` bytes. -/
theorem not_exact_on_error :
    (∃ x : Incoming 4, x.chunks = [[1, 2]] ∧ x.stop = some (-1) ∧
      (futureRecvMessage 4 x.answers 0).1 = none ∧ ¬ x.Exact) ∧
    ∃ x : Incoming 4, x.chunks = [] ∧ x.stop = some (-1) ∧
      (futureRecvMessage 4 x.answers 0).1 = some (.kSuccess 4294967295) ∧ ¬ x.Exact := by
  refine ⟨⟨⟨[[1, 2]], some (-1), by decide, nofun, by decide, by decide⟩, rfl, rfl, by decide, ?_⟩,
    ⟨⟨[], some (-1), by decide, nofun, by decide, by decide⟩, rfl, rfl, by decide, ?_⟩⟩
  · rintro ⟨-, -, herror⟩
    obtain ⟨v, hv⟩ := herror (by decide)
    cases hv
  · rintro ⟨-, -, herror⟩
    obtain ⟨v, hv⟩ := herror (by decide)
    cases hv

end Incoming

end ExactReceive

end ArchNet

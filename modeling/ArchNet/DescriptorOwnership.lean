import Mathlib.Data.Int.Notation
import ArchNet.Lts

/-!
# Who Closes a Descriptor

A descriptor belongs to one `TcpSocketStream`. That stream may be wrapped by a
`PooledTCPSocketStream`, either may be owned by a `ClientConnection`, and a wrapped stream
goes back into the `TcpSocketPoolClient` when its wrapper is destroyed. All of these have a
`close()` that ends in `TcpSocketStream::close`, which closes the descriptor and keeps its
number, and the destructor of `TcpSocketStream` closes it once more.

Ownership is a chain, so a stream carries the chain of its owners, and the destruction of
the outermost owner runs the destructors along it. The system gives out descriptor numbers
that are not open, those of closed descriptors again among them; `poll` on a number that is
not open reports `POLLNVAL` only. `closes` is history: how often a stream has closed the
descriptor it was made with.

## Main results

* `descriptorsOk_of_reach`: **each descriptor is closed at most once, and nothing closed is
  pooled**, in every run in which a stream that has been closed is neither closed again nor
  destroyed and no `ClientConnection` over a descriptor is destroyed — and the first step
  that does one of these breaks it.
* `connection_closes_twice`: one connection, made and destroyed.
-/

namespace ArchNet

open Lts

/-- The owners of a `TcpSocketStream`, from the inside out: its user, a
`PooledTCPSocketStream` with its flag `drop`, a `ClientConnection` over either, the pool,
nobody any more. -/
inductive Owners
  | user
  | wrapped (drop : Bool)
  | connection
  | wrappedConnection (drop : Bool)
  | pool
  | deleted
  deriving Repr, DecidableEq

/-- `class TcpSocketStream`, with its owners. -/
structure TcpSocketStream where
  fd : ℤ
  owners : Owners := .user
  closes : ℕ := 0
  deriving Repr, DecidableEq

namespace TcpSocketStream

/-- `arch_net::close(fd_)`, with the descriptors that are open. -/
def closeFd (t : TcpSocketStream) (fds : List ℤ) : TcpSocketStream × List ℤ :=
  ({ t with closes := t.closes + 1 }, fds.erase t.fd)

/-- `TcpSocketStream::close`. -/
def close (t : TcpSocketStream) (fds : List ℤ) : TcpSocketStream × List ℤ :=
  if t.fd < 0 then (t, fds) else t.closeFd fds

/-- `TcpSocketStream::~TcpSocketStream`. -/
def destroy (t : TcpSocketStream) (fds : List ℤ) : TcpSocketStream × List ℤ :=
  if t.fd < 0 then ({ t with owners := .deleted }, fds)
  else { t with owners := .deleted }.closeFd fds

/-- `fd >= 0 && wait_fd_read_timeout(fd, 0) == 1`; `ready` is what `poll` finds on a
descriptor that is open. -/
def readable (t : TcpSocketStream) (fds : List ℤ) (ready : Bool) : Bool :=
  decide (0 ≤ t.fd) && fds.contains t.fd && ready

/-- `TcpSocketPoolClient::release`: whether the pool has taken the stream. -/
def release (t : TcpSocketStream) (fds : List ℤ) (ready : Bool) : Bool × TcpSocketStream :=
  if t.readable fds ready then (false, t) else (true, { t with owners := .pool })

/-- `PooledTCPSocketStream::~PooledTCPSocketStream`: the stream is given back to the pool,
or deleted if it is to be dropped or the pool does not take it. -/
def destroyWrapped (t : TcpSocketStream) (drop ready : Bool) (fds : List ℤ) :
    TcpSocketStream × List ℤ :=
  if drop then t.destroy fds
  else
    match t.release fds ready with
    | (true, t') => (t', fds)
    | (false, t') => t'.destroy fds

/-- The destructor of the stream of a `ClientConnection`, wrapped or not. -/
def destroyStream (t : TcpSocketStream) (ready : Bool) : Option Bool → List ℤ →
    TcpSocketStream × List ℤ
  | none, fds => t.destroy fds
  | some drop, fds => t.destroyWrapped drop ready fds

/-- `ClientConnection::~ClientConnection` with `owner_ship_`: `stream_->close()`, then
`delete stream_`. -/
def destroyConnection (t : TcpSocketStream) (wrapper : Option Bool) (ready : Bool)
    (fds : List ℤ) : TcpSocketStream × List ℤ :=
  let (t', fds') := t.close fds
  t'.destroyStream ready wrapper fds'

end TcpSocketStream

/-- What can happen to a stream: it is wrapped by the pool, taken out of the pool and
wrapped, given to a connection; a read or a write on its wrapper fails; `close()` is called
on one of its layers; its outermost owner is destroyed, and `poll` finds it ready or not. -/
inductive StreamAction
  | wrap
  | take
  | connection
  | ioError
  | close
  | destroy (ready : Bool)
  deriving Repr, DecidableEq

namespace TcpSocketStream

/-- One action on a stream; which of them its owners allow. -/
def act (t : TcpSocketStream) (fds : List ℤ) : StreamAction → Option (TcpSocketStream × List ℤ)
  | .wrap => if t.owners = .user then some ({ t with owners := .wrapped false }, fds) else none
  | .take => if t.owners = .pool then some ({ t with owners := .wrapped false }, fds) else none
  | .connection =>
      match t.owners with
      | .user => some ({ t with owners := .connection }, fds)
      | .wrapped drop => some ({ t with owners := .wrappedConnection drop }, fds)
      | _ => none
  | .ioError =>
      match t.owners with
      | .wrapped _ => some ({ t with owners := .wrapped true }, fds)
      | .wrappedConnection _ => some ({ t with owners := .wrappedConnection true }, fds)
      | _ => none
  | .close =>
      match t.owners with
      | .pool | .deleted => none
      | _ => some (t.close fds)
  | .destroy ready =>
      match t.owners with
      | .user | .pool => some (t.destroy fds)
      | .wrapped drop => some (t.destroyWrapped drop ready fds)
      | .connection => some (t.destroyConnection none ready fds)
      | .wrappedConnection drop => some (t.destroyConnection (some drop) ready fds)
      | .deleted => none

/-- No descriptor is closed twice, and none that is closed belongs to the pool. -/
def Ok (t : TcpSocketStream) : Prop := t.closes ≤ 1 ∧ (t.owners = .pool → t.closes = 0)

instance (t : TcpSocketStream) : Decidable t.Ok :=
  inferInstanceAs (Decidable (t.closes ≤ 1 ∧ (t.owners = .pool → t.closes = 0)))

/-- The condition on an action, for a stream with a descriptor: after `close()` has been
called on it, it is neither closed nor destroyed, and a `ClientConnection` over it is not
destroyed at all. -/
def closedOnce (t : TcpSocketStream) : StreamAction → Bool
  | .close => decide (t.fd < 0 ∨ t.closes = 0)
  | .destroy _ =>
      match t.owners with
      | .connection | .wrappedConnection _ => decide (t.fd < 0)
      | _ => decide (t.fd < 0 ∨ t.closes = 0)
  | _ => true

end TcpSocketStream

/-- The streams that have been made, and the descriptors that are open. -/
structure Descriptors where
  streams : List TcpSocketStream := []
  openFds : List ℤ := []
  deriving Repr, DecidableEq

namespace Descriptors

/-- A stream is made, or something happens to one of them. -/
inductive DescAction
  | socket (fd : ℤ)
  | on (r : ℕ) (a : StreamAction)
  deriving Repr, DecidableEq

/-- **One action.** A new descriptor is not one that is open; a stream with a negative one
has no descriptor. -/
def step (s : Descriptors) : DescAction → Option Descriptors
  | .socket fd =>
      if fd < 0 then some { s with streams := s.streams ++ [{ fd := fd }] }
      else if fd ∈ s.openFds then none
      else some { streams := s.streams ++ [{ fd := fd }], openFds := fd :: s.openFds }
  | .on r a => do
      let t ← s.streams[r]?
      let (t', fds) ← t.act s.openFds a
      some { streams := s.streams.set r t', openFds := fds }

/-- **The property**: no stream has closed its descriptor more than once, and no stream of
the pool has closed it. -/
def DescriptorsOk (s : Descriptors) : Prop := ∀ t ∈ s.streams, t.Ok

instance (s : Descriptors) : Decidable s.DescriptorsOk :=
  inferInstanceAs (Decidable (∀ t ∈ s.streams, t.Ok))

/-- The condition on a step. -/
def closedOnce (s : Descriptors) : DescAction → Bool
  | .socket _ => true
  | .on r a => s.streams[r]?.all fun t => t.closedOnce a

end Descriptors

/-! ### One stream -/

namespace TcpSocketStream

variable {t t' : TcpSocketStream} {fds fds' : List ℤ} {a : StreamAction}

/-- `close` closes once if the descriptor is not negative. -/
theorem closes_close : (t.close fds).1.closes = if t.fd < 0 then t.closes else t.closes + 1 := by
  rw [close]
  split <;> rfl

/-- The destructor closes once if the descriptor is not negative. -/
theorem closes_destroy :
    (t.destroy fds).1.closes = if t.fd < 0 then t.closes else t.closes + 1 := by
  rw [destroy]
  split <;> rfl

/-- A destroyed stream has no owner. -/
theorem owners_destroy : (t.destroy fds).1.owners = .deleted := by
  rw [destroy]
  split <;> rfl

/-- A destroyed wrapper leaves the stream in the pool as it is, or deleted. -/
theorem destroyWrapped_cases (drop ready : Bool) :
    (t.destroyWrapped drop ready fds).1 = { t with owners := .pool } ∨
      t.destroyWrapped drop ready fds = t.destroy fds := by
  rw [destroyWrapped]
  split
  · exact .inr rfl
  · rw [release]
    split
    · next t' h =>
        split at h
        · exact absurd (Prod.mk.inj h).1 (by simp)
        · exact .inl (Prod.mk.inj h).2.symm
    · next t' h =>
        split at h
        · exact .inr (by rw [(Prod.mk.inj h).2])
        · exact absurd (Prod.mk.inj h).1 (by simp)

/-- A deleted stream has closed its descriptor once more. -/
theorem ok_destroy (h : t.closes ≤ 1) : (t.destroy fds).1.Ok ↔ t.fd < 0 ∨ t.closes = 0 := by
  rw [Ok, closes_destroy, owners_destroy]
  split
  · next hneg => exact ⟨fun _ => .inl hneg, fun _ => ⟨h, by simp⟩⟩
  · next hneg =>
      constructor
      · rintro ⟨hle, -⟩
        exact .inr (by omega)
      · rintro (hlt | hzero)
        · exact absurd hlt hneg
        · exact ⟨by omega, by simp⟩

/-- The stream of a destroyed wrapper is right if it was not closed before. -/
theorem ok_destroyWrapped (drop ready : Bool) (h : t.closes ≤ 1)
    (hneg : t.fd < 0 → t.closes = 0) :
    (t.destroyWrapped drop ready fds).1.Ok ↔ t.fd < 0 ∨ t.closes = 0 := by
  obtain heq | heq := @destroyWrapped_cases t fds drop ready
  · rw [heq, Ok]
    constructor
    · rintro ⟨-, hpool⟩
      exact .inr (hpool rfl)
    · rintro hok
      have hzero : t.closes = 0 := hok.elim hneg id
      exact ⟨h, fun _ => hzero⟩
  · rw [heq]
    exact ok_destroy h

/-- A stream keeps its descriptor, and without one it closes nothing. -/
def Keeps (t t' : TcpSocketStream) : Prop :=
  t'.fd = t.fd ∧ (t.fd < 0 → t'.closes = t.closes)

theorem Keeps.trans {u : TcpSocketStream} (h : Keeps t t') (h' : Keeps t' u) : Keeps t u :=
  ⟨h'.1.trans h.1, fun hlt => (h'.2 (h.1 ▸ hlt)).trans (h.2 hlt)⟩

/-- `close` leaves the number of the descriptor. -/
theorem keeps_close : Keeps t (t.close fds).1 := by
  rw [close]
  split
  · exact ⟨rfl, fun _ => rfl⟩
  · next hneg => exact ⟨rfl, fun hlt => absurd hlt hneg⟩

/-- The destructor leaves the number of the descriptor. -/
theorem keeps_destroy : Keeps t (t.destroy fds).1 := by
  rw [destroy]
  split
  · exact ⟨rfl, fun _ => rfl⟩
  · next hneg => exact ⟨rfl, fun hlt => absurd hlt hneg⟩

/-- The destructor of the wrapper leaves the number of the descriptor. -/
theorem keeps_destroyWrapped (drop ready : Bool) :
    Keeps t (t.destroyWrapped drop ready fds).1 := by
  obtain heq | heq := @destroyWrapped_cases t fds drop ready
  · rw [heq]
    exact ⟨rfl, fun _ => rfl⟩
  · rw [heq]
    exact keeps_destroy

/-- The destructor of the connection leaves the number of the descriptor. -/
theorem keeps_destroyConnection (wrapper : Option Bool) (ready : Bool) :
    Keeps t (t.destroyConnection wrapper ready fds).1 := by
  refine Keeps.trans (@keeps_close t fds) ?_
  cases wrapper with
  | none => exact keeps_destroy
  | some drop => exact keeps_destroyWrapped drop ready

/-- Every call leaves the number of the descriptor. -/
theorem keeps_act (h : t.act fds a = some (t', fds')) : Keeps t t' := by
  cases a with
  | wrap | take =>
      rw [act, Option.ite_none_right_eq_some, Option.some.injEq] at h
      rw [← (Prod.mk.inj h.2).1]
      exact ⟨rfl, fun _ => rfl⟩
  | connection | ioError =>
      rw [act] at h
      split at h
      · rw [← (Prod.mk.inj (Option.some.inj h)).1]
        exact ⟨rfl, fun _ => rfl⟩
      · rw [← (Prod.mk.inj (Option.some.inj h)).1]
        exact ⟨rfl, fun _ => rfl⟩
      · exact absurd h (by simp)
  | close =>
      have hkeep := @keeps_close t fds
      rw [act] at h
      split at h
      · exact absurd h (by simp)
      · exact absurd h (by simp)
      · rw [Option.some.inj h] at hkeep
        exact hkeep
  | destroy ready =>
      rw [act] at h
      split at h
      · have hkeep := @keeps_destroy t fds
        rw [Option.some.inj h] at hkeep
        exact hkeep
      · have hkeep := @keeps_destroy t fds
        rw [Option.some.inj h] at hkeep
        exact hkeep
      · next drop _ =>
          have hkeep := @keeps_destroyWrapped t fds drop ready
          rw [Option.some.inj h] at hkeep
          exact hkeep
      · have hkeep := @keeps_destroyConnection t fds none ready
        rw [Option.some.inj h] at hkeep
        exact hkeep
      · next drop _ =>
          have hkeep := @keeps_destroyConnection t fds (some drop) ready
          rw [Option.some.inj h] at hkeep
          exact hkeep
      · exact absurd h (by simp)

/-- A stream closed by the destructor of its connection is destroyed next: it is right only
if it has no descriptor. -/
theorem ok_destroyConnection (wrapper : Option Bool) (ready : Bool) (h : t.closes ≤ 1)
    (hneg : t.fd < 0 → t.closes = 0) :
    (t.destroyConnection wrapper ready fds).1.Ok ↔ t.fd < 0 := by
  rw [destroyConnection]
  by_cases hfd : t.fd < 0
  · -- without a descriptor `close()` does nothing
    have hclose : t.close fds = (t, fds) := by rw [close, if_pos hfd]
    rw [hclose]
    cases wrapper with
    | none => exact (ok_destroy h).trans (or_iff_left_of_imp fun _ => hfd)
    | some drop =>
        exact (ok_destroyWrapped drop ready h hneg).trans (or_iff_left_of_imp fun _ => hfd)
  · have hclose : t.close fds = ({ t with closes := t.closes + 1 }, fds.erase t.fd) := by
      rw [close, if_neg hfd, closeFd]
    rw [hclose]
    refine ⟨fun hok => absurd hok ?_, fun hlt => absurd hlt hfd⟩
    have hnot : ¬ ({ t with closes := t.closes + 1 }.destroy (fds.erase t.fd)).1.Ok := by
      rw [Ok, closes_destroy, if_neg hfd]
      rintro ⟨hle, -⟩
      exact absurd hle (by simp)
    cases wrapper with
    | none => exact hnot
    | some drop =>
        change ¬ ({ t with closes := t.closes + 1 }.destroyWrapped drop ready
          (fds.erase t.fd)).1.Ok
        obtain heq | heq := @destroyWrapped_cases { t with closes := t.closes + 1 }
          (fds.erase t.fd) drop ready
        · rw [heq]
          rintro ⟨-, hpool⟩
          exact absurd (hpool rfl) (by simp)
        · rw [heq]
          exact hnot

/-- The owners are changed, and a stream that is not put into the pool stays right. -/
theorem Ok.own {o : Owners} (h : t.Ok) (ho : o ≠ .pool) : { t with owners := o }.Ok :=
  ⟨h.1, fun hpool => absurd hpool ho⟩

/-- A stream outside the pool that is closed. -/
theorem ok_close (hok : t.Ok) (hpool : t.owners ≠ .pool) :
    (t.close fds).1.Ok ↔ t.closedOnce .close = true := by
  have howners : (t.close fds).1.owners = t.owners := by
    rw [close]
    split <;> rfl
  rw [Ok, closes_close, howners, closedOnce, decide_eq_true_eq]
  split
  · next hlt => exact iff_of_true ⟨hok.1, fun h => absurd h hpool⟩ (.inl hlt)
  · next hlt =>
      constructor
      · rintro ⟨hle, -⟩
        exact .inr (by omega)
      · rintro (h | hzero)
        · exact absurd h hlt
        · exact ⟨by omega, fun h => absurd h hpool⟩

/-- **One action on a stream that is right**: it stays so if and only if the action meets the
condition. -/
theorem act_ok (hok : t.Ok) (hneg : t.fd < 0 → t.closes = 0)
    (h : t.act fds a = some (t', fds')) : t'.Ok ↔ t.closedOnce a = true := by
  cases a with
  | wrap | take =>
      rw [act, Option.ite_none_right_eq_some, Option.some.injEq] at h
      obtain ⟨-, heq⟩ := h
      rw [← (Prod.mk.inj heq).1]
      exact iff_of_true (hok.own (by simp)) rfl
  | connection | ioError =>
      rw [act] at h
      split at h
      · rw [← (Prod.mk.inj (Option.some.inj h)).1]
        exact iff_of_true (hok.own (by simp)) rfl
      · rw [← (Prod.mk.inj (Option.some.inj h)).1]
        exact iff_of_true (hok.own (by simp)) rfl
      · exact absurd h (by simp)
  | close =>
      rw [act] at h
      have hclose : t.owners ≠ .pool ∧ t' = (t.close fds).1 := by
        split at h
        · exact absurd h (by simp)
        · exact absurd h (by simp)
        · next hpool _ => exact ⟨hpool, by rw [Option.some.inj h]⟩
      obtain ⟨hpool, rfl⟩ := hclose
      exact ok_close hok hpool
  | destroy ready =>
      rw [act] at h
      split at h
      · next ho =>
          rw [closedOnce, ho, decide_eq_true_eq, ← ok_destroy hok.1, Option.some.inj h]
      · next ho =>
          rw [closedOnce, ho, decide_eq_true_eq, ← ok_destroy hok.1, Option.some.inj h]
      · next drop ho =>
          rw [closedOnce, ho, decide_eq_true_eq, ← ok_destroyWrapped drop ready hok.1 hneg,
            Option.some.inj h]
      · next ho =>
          rw [closedOnce, ho, decide_eq_true_eq, ← ok_destroyConnection none ready hok.1 hneg,
            Option.some.inj h]
      · next drop ho =>
          rw [closedOnce, ho, decide_eq_true_eq,
            ← ok_destroyConnection (some drop) ready hok.1 hneg, Option.some.inj h]
      · exact absurd h (by simp)

end TcpSocketStream

/-! ### Runs -/

namespace Descriptors

variable {s s' : Descriptors} {a : DescAction}

/-- The property, and that only a stream with a descriptor has closed one. -/
structure DescInv (s : Descriptors) : Prop where
  ok : s.DescriptorsOk
  neg : ∀ t ∈ s.streams, t.fd < 0 → t.closes = 0

/-- **What one step does to the property**: it keeps it if and only if it meets the
condition. -/
theorem DescInv.step_iff (hinv : DescInv s) (h : s.step a = some s') :
    (s'.DescriptorsOk ↔ s.closedOnce a = true) ∧
      ∀ t ∈ s'.streams, t.fd < 0 → t.closes = 0 := by
  cases a with
  | socket fd =>
      have hnew : ∀ t ∈ s'.streams, t ∈ s.streams ∨ t = { fd := fd } := by
        intro t ht
        rw [step] at h
        split at h
        · obtain rfl := Option.some.inj h
          simpa using ht
        split at h
        · exact absurd h (by simp)
        · obtain rfl := Option.some.inj h
          simpa using ht
      refine ⟨iff_of_true (fun t ht => ?_) rfl, fun t ht hlt => ?_⟩
      · obtain ht | rfl := hnew t ht
        · exact hinv.ok t ht
        · exact ⟨by simp, by simp⟩
      · obtain ht | rfl := hnew t ht
        · exact hinv.neg t ht hlt
        · rfl
  | on r a =>
      simp only [step, Option.bind_eq_bind, Option.bind_eq_some_iff] at h
      obtain ⟨t, ht, ⟨t', fds⟩, hact, heq⟩ := h
      obtain rfl := Option.some.inj heq
      have hmem : t ∈ s.streams := List.mem_of_getElem? ht
      have hlt : r < s.streams.length := (List.getElem?_eq_some_iff.mp ht).1
      have hok := TcpSocketStream.act_ok (hinv.ok t hmem) (hinv.neg t hmem) hact
      refine ⟨?_, fun x hx hneg => ?_⟩
      · rw [closedOnce, ht, Option.all_some, ← hok]
        constructor
        · intro hall
          exact hall t' (List.mem_set hlt t')
        · intro ht' x hx
          obtain hx | rfl := List.mem_or_eq_of_mem_set hx
          · exact hinv.ok x hx
          · exact ht'
      · obtain hx | rfl := List.mem_or_eq_of_mem_set hx
        · exact hinv.neg x hx hneg
        · have hkeep := TcpSocketStream.keeps_act hact
          have hlt : t.fd < 0 := hkeep.1 ▸ hneg
          rw [hkeep.2 hlt]
          exact hinv.neg t hmem hlt

/-- **The invariant** holds in every state that is reached. -/
theorem descInv_of_reach (h : Reach step closedOnce {} s) : DescInv s := by
  refine h.invariant DescInv ⟨by simp [DescriptorsOk], by simp⟩ fun hinv hC hs => ?_
  obtain ⟨hok, hneg⟩ := hinv.step_iff hs
  exact ⟨hok.mpr hC, hneg⟩

/-- **Each descriptor is closed at most once, and no closed one is pooled.** This holds in
every state of a run whose steps all meet the condition, and it is lost by the first step
that does not. -/
theorem descriptorsOk_of_reach (h : Reach step closedOnce {} s) :
    s.DescriptorsOk ∧
      ∀ a s', s.step a = some s' → (s'.DescriptorsOk ↔ s.closedOnce a = true) :=
  ⟨(descInv_of_reach h).ok, fun _ _ hs => ((descInv_of_reach h).step_iff hs).1⟩

/-- The theorem at a stream that is wrapped, given back, taken out again and dropped after a
read has failed. -/
theorem descriptorsOk_wrapped_twice :
    ∃ s, Reach step closedOnce {} s ∧ s = ⟨[⟨5, .deleted, 1⟩], []⟩ ∧ s.DescriptorsOk := by
  obtain ⟨s, hs, hP⟩ : ∃ s, Reach step closedOnce {} s ∧ s = ⟨[⟨5, .deleted, 1⟩], []⟩ :=
    Reach.exists_of_exec [.socket 5, .on 0 .wrap, .on 0 (.destroy false), .on 0 .take,
      .on 0 .ioError, .on 0 (.destroy true)] (by decide +kernel)
  exact ⟨s, hs, hP, (descriptorsOk_of_reach hs).1⟩

/-- **A connection closes its descriptor twice**, and over a wrapped stream it puts a closed
descriptor into the pool. -/
theorem connection_closes_twice :
    (∃ s, Reach step always {} s ∧ s = ⟨[⟨5, .deleted, 2⟩], []⟩ ∧ ¬ s.DescriptorsOk) ∧
      ∃ s, Reach step always {} s ∧ s = ⟨[⟨5, .pool, 1⟩], []⟩ ∧ ¬ s.DescriptorsOk := by
  constructor
  · exact Reach.exists_of_exec [.socket 5, .on 0 .connection, .on 0 (.destroy false)]
      (by decide +kernel)
  · exact Reach.exists_of_exec [.socket 5, .on 0 .wrap, .on 0 .connection,
      .on 0 (.destroy false)] (by decide +kernel)

end Descriptors

end ArchNet

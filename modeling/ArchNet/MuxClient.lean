import ArchNet.EndPoint
import ArchNet.HashTable
import ArchNet.Lts

/-!
# The Client of Multiplexed Sessions

`MultiplexingSocketClient` of `mux_session.h`: one session for each endpoint, kept in a hash
map, on which `connect` opens its streams. A session that is not in the map is dialled with
the mutex released, and registered once its first stream is open.

Which sessions still open streams is given by the list of those that do, dialling by the
session made on the new connection, and the arrangement of the map after an insertion by the
container.

## Main results

* `ClientInv.step`: a session stands under the address it is connected to.
-/

namespace ArchNet

open Lts

/-- A session object: its place in memory and, as history, the address it is connected to. -/
structure SessionRef where
  ref : ℕ
  peer : SockAddr
  deriving DecidableEq

/-- `class MultiplexingSocketClient`: the sessions, whether `mutex_` is held with nobody to
release it, and the sessions whose `connect` has yet to register them. -/
structure MultiplexingSocketClient where
  sessions : List (EndPoint × SessionRef) := []
  locked : Bool := false
  pending : List (EndPoint × SessionRef) := []

/-- Where `connect` has opened its stream: on a registered session, on one it has dialled,
or nowhere. -/
inductive Opened
  | registered (ses : SessionRef)
  | dialed (ses : SessionRef)
  | null
  deriving DecidableEq

/-- The session of the stream that is handed out. -/
def Opened.session : Opened → Option SessionRef
  | registered ses | dialed ses => some ses
  | null => none

namespace MultiplexingSocketClient

variable (hashString : List UInt8 → UInt64)

/-- `sessions_.find(ep)`. -/
def findSession (st : MultiplexingSocketClient) (ep : EndPoint) :
    Option (EndPoint × SessionRef) :=
  HashTable.find? (EndPoint.hash hashString) EndPoint.eq st.sessions ep

/-- `connect(remote)` up to the registration of a new session. `live` are the sessions whose
`open_stream` answers with a stream, `dial` is the session made on a new connection. A
registered session that refuses is erased, and the mutex stays locked; with the mutex held
the call waits. -/
def connect (st : MultiplexingSocketClient) (remote : EndPoint) (live : List ℕ)
    (dial : Option ℕ) : Option (Opened × MultiplexingSocketClient) :=
  if st.locked then none
  else
    match st.findSession hashString remote with
    | none =>
        match dial with
        | none => some (.null, st)
        | some ref =>
            let ses : SessionRef := ⟨ref, remote.sockAddr⟩
            if ref ∈ live then
              some (.dialed ses, { st with pending := st.pending ++ [(remote, ses)] })
            else some (.null, st)
    | some (_, ses) =>
        if ses.ref ∈ live then some (.registered ses, st)
        else
          some (.null, { st with
            sessions :=
              HashTable.eraseFound (EndPoint.hash hashString) EndPoint.eq st.sessions remote
            locked := true })

/-- The end of such a `connect`: `sessions_.emplace`, which keeps an entry that is there. -/
def register (st : MultiplexingSocketClient) (e : EndPoint × SessionRef)
    (order : List (EndPoint × SessionRef)) : Option MultiplexingSocketClient :=
  if st.locked = true ∨ e ∉ st.pending then none
  else if (st.findSession hashString e.1).isSome then
    some { st with pending := st.pending.erase e }
  else if order.Perm (e :: st.sessions) then
    some { st with sessions := order, pending := st.pending.erase e }
  else none

/-- The operations on the client. -/
inductive ClientAction
  | connect (ep : EndPoint) (live : List ℕ) (dial : Option ℕ)
  | register (e : EndPoint × SessionRef) (order : List (EndPoint × SessionRef))

/-- One operation. -/
def step (st : MultiplexingSocketClient) : ClientAction → Option MultiplexingSocketClient
  | .connect ep live dial => (st.connect hashString ep live dial).map Prod.snd
  | .register e order => st.register hashString e order

variable {hashString} {st st' : MultiplexingSocketClient} {remote : EndPoint}
  {e : EndPoint × SessionRef}

/-- A session stands under the address it is connected to. -/
structure ClientInv (st : MultiplexingSocketClient) : Prop where
  sessions : ∀ e ∈ st.sessions, e.2.peer = e.1.sockAddr
  pending : ∀ e ∈ st.pending, e.2.peer = e.1.sockAddr

theorem ClientInv.connect {live : List ℕ} {dial : Option ℕ} {res : Opened}
    (hinv : ClientInv st) (h : st.connect hashString remote live dial = some (res, st')) :
    ClientInv st' := by
  simp only [MultiplexingSocketClient.connect, Option.ite_none_left_eq_some] at h
  obtain ⟨-, h⟩ := h
  split at h
  · split at h
    · obtain ⟨-, rfl⟩ := Prod.mk.inj (Option.some.inj h)
      exact hinv
    · split at h
      · obtain ⟨-, rfl⟩ := Prod.mk.inj (Option.some.inj h)
        refine ⟨hinv.sessions, fun x hx => ?_⟩
        obtain hx | rfl := by simpa using hx
        · exact hinv.pending x hx
        · rfl
      · obtain ⟨-, rfl⟩ := Prod.mk.inj (Option.some.inj h)
        exact hinv
  · next k ses hfind =>
      split at h
      · obtain ⟨-, rfl⟩ := Prod.mk.inj (Option.some.inj h)
        exact hinv
      · obtain ⟨-, rfl⟩ := Prod.mk.inj (Option.some.inj h)
        refine ⟨fun x hx => hinv.sessions x ?_, hinv.pending⟩
        exact (HashTable.perm_eraseFound hfind).mem_iff.mpr (List.mem_cons_of_mem _ hx)

theorem ClientInv.register {order : List (EndPoint × SessionRef)} (hinv : ClientInv st)
    (h : st.register hashString e order = some st') : ClientInv st' := by
  simp only [MultiplexingSocketClient.register, Option.ite_none_left_eq_some, not_or,
    not_not] at h
  obtain ⟨⟨-, hmem⟩, h⟩ := h
  have hpending : ∀ x ∈ st.pending.erase e, x.2.peer = x.1.sockAddr := fun x hx =>
    hinv.pending x (List.mem_of_mem_erase hx)
  split at h
  · rw [← Option.some.inj h]
    exact ⟨hinv.sessions, hpending⟩
  · split at h
    · next hperm =>
        rw [← Option.some.inj h]
        refine ⟨fun x hx => ?_, hpending⟩
        obtain rfl | hx := List.mem_cons.mp (hperm.mem_iff.mp hx)
        · exact hinv.pending x hmem
        · exact hinv.sessions x hx
    · exact absurd h (by simp)

/-- **Every operation keeps the sessions under their own addresses.** -/
theorem ClientInv.step {a : ClientAction} (hinv : ClientInv st)
    (h : st.step hashString a = some st') : ClientInv st' := by
  cases a with
  | connect ep live dial =>
      obtain ⟨⟨res, st₁⟩, hconn, rfl⟩ := Option.map_eq_some_iff.mp h
      exact hinv.connect hconn
  | register e order => exact hinv.register h

/-- After every sequence of operations the sessions stand under their own addresses. -/
theorem clientInv_of_reach (h : Reach (step hashString) always {} st) : ClientInv st := by
  have hinit : ClientInv {} := ⟨by simp, by simp⟩
  exact h.invariant ClientInv hinit fun hinv _ hs => hinv.step hs

/-- The look-up stops at an entry with the same hash and **another** address. -/
theorem findSession_eq (st : MultiplexingSocketClient) (ep : EndPoint) :
    st.findSession hashString ep = st.sessions.find? fun e =>
      e.1.hash hashString == ep.hash hashString && e.1.sockAddr != ep.sockAddr := by
  rw [findSession, HashTable.find?]
  congr 1
  funext e
  rw [Bool.eq_iff_iff, HashTable.hits_iff, EndPoint.eq_iff]
  simp [ne_comm]

end MultiplexingSocketClient

end ArchNet

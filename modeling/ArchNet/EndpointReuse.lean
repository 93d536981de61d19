import ArchNet.MuxClient
import ArchNet.SocketPool

/-!
# Reuse by Endpoint

Two caches keep something expensive under the endpoint it belongs to: the connection pool
keeps idle connections, the client of multiplexed sessions keeps sessions. Both hand out
what they have for the address asked for, and nothing of another address — if the key
comparison is an equality. The one of `EndPoint` holds of different addresses only.

## Main results

* `endpoint_reuse_iff`: **when the caches do what they are for** — for every sequence of
  operations and every answer of the system, `connect` reuses what it should and nothing
  else if and only if there is nothing to reuse and nothing that collides: no idle
  connection in the pool has a key with the hash asked for; no live session is registered
  for the address, and the first registered session with the same hash and another address,
  if any, is not live.
* `pooled_connection_ignored`: a connection that was just released is not reused, and
  neither is a session that was just registered.
-/

namespace ArchNet

open Lts

variable {hashString : List UInt8 → UInt64}

/-! ### The connection pool -/

namespace TcpSocketPoolClient

variable {st st' : TcpSocketPoolClient} {ep : EndPoint} {polled : List ℤ}
  {dial : Option Conn} {res : Connected}

/-- What `connect` ought to answer: a pooled connection that was released for the address
asked for, when there is an idle one, and none of another address. -/
structure Reuses (st : TcpSocketPoolClient) (ep : EndPoint) (polled : List ℤ)
    (res : Connected) : Prop where
  reused : (∃ n ∈ st.streamList, n.readable polled = false ∧
      n.key.sockAddr = ep.sockAddr) →
    ∃ n ∈ st.streamList, n.key.sockAddr = ep.sockAddr ∧ res = .pooled n
  routed : ∀ n, res = .pooled n → n.key.sockAddr = ep.sockAddr

/-- No idle connection in the pool has a key with the hash of `ep`: none was released for
its address, and none for another address with the same hash. -/
def NoneIdle (hashString : List UInt8 → UInt64) (st : TcpSocketPoolClient) (ep : EndPoint)
    (polled : List ℤ) : Prop :=
  ∀ n ∈ st.streamList, n.readable polled = false →
    n.key.hash hashString ≠ ep.hash hashString

/-- What `connect` answers: an idle connection with the hash asked for and another address,
or a new one when there is none. -/
theorem connect_spec (hinv : PoolInv st) (ep : EndPoint) (polled : List ℤ)
    (dial : Option Conn) :
    ∃ res st', st.connect hashString ep polled dial = some (res, st') ∧
      ((∃ n ∈ st.streamList, n.readable polled = false ∧
          n.key.hash hashString = ep.hash hashString ∧ n.key.sockAddr ≠ ep.sockAddr ∧
          res = .pooled n) ∨
        (res = .dialed dial ∧ ∀ n ∈ st.streamList, n.readable polled = false →
          n.key.hash hashString = ep.hash hashString → n.key.sockAddr = ep.sockAddr)) := by
  have hlist : ∀ k n, (k, n) ∈ st.ep2stream → n ∈ st.streamList ∧ n.key = k := fun k n he =>
    ⟨hinv.nodes.mem_iff.mp (List.mem_map_of_mem he), hinv.keys _ he⟩
  obtain ⟨r, st', hloop, hnone, hsome⟩ :=
    connectLoop_spec (st.ep2stream.length + 1) st (Nat.lt_succ_self _)
  cases r with
  | some n =>
      refine ⟨.pooled n, st', by rw [connect, hloop]; rfl, .inl ?_⟩
      obtain ⟨k, hmem, hhash, hne, hidle⟩ := hsome n rfl
      obtain ⟨hn, rfl⟩ := hlist k n hmem
      exact ⟨n, hn, hidle, hhash, hne, rfl⟩
  | none =>
      refine ⟨.dialed dial, st', by rw [connect, hloop]; rfl, .inr ⟨rfl, ?_⟩⟩
      intro n hn hidle hhash
      obtain ⟨⟨k, m⟩, he, rfl⟩ := List.mem_map.mp (hinv.nodes.mem_iff.mpr hn)
      obtain ⟨-, hkey⟩ := hlist k m he
      by_contra hne
      have hread := hnone rfl (k, m) he (hkey ▸ hhash) (hkey ▸ hne)
      exact absurd hread (by simp [hidle])

/-- When `connect` reuses what it should. -/
theorem reuses_iff (hinv : PoolInv st) (ep : EndPoint) (polled : List ℤ)
    (dial : Option Conn) :
    ∃ res st', st.connect hashString ep polled dial = some (res, st') ∧
      (Reuses st ep polled res ↔ NoneIdle hashString st ep polled) := by
  obtain ⟨res, st', hconn, hres⟩ := @connect_spec hashString st hinv ep polled dial
  refine ⟨res, st', hconn, ⟨fun h n hn hidle hhash => ?_, fun h => ?_⟩⟩
  · obtain ⟨m, -, -, -, hne, rfl⟩ | ⟨rfl, hsame⟩ := hres
    · exact hne (h.routed m rfl)
    · obtain ⟨m, -, -, hm⟩ := h.reused ⟨n, hn, hidle, hsame n hn hidle hhash⟩
      exact absurd hm (by simp)
  · obtain ⟨m, hm, hidle, hhash, -⟩ | ⟨rfl, -⟩ := hres
    · exact absurd hhash (h m hm hidle)
    · refine ⟨fun ⟨n, hn, hidle, haddr⟩ => ?_, by simp⟩
      exact absurd (EndPoint.hash_congr haddr) (h n hn hidle)

end TcpSocketPoolClient

/-! ### The sessions -/

namespace MultiplexingSocketClient

variable {st st' : MultiplexingSocketClient} {ep : EndPoint} {live : List ℕ}
  {dial : Option ℕ} {res : Opened}

/-- What `connect` ought to answer: a stream on a registered session that is connected to
the address asked for, when there is a live one, and none on a session of another address. -/
structure Reuses (st : MultiplexingSocketClient) (ep : EndPoint) (live : List ℕ)
    (res : Opened) : Prop where
  reused : (∃ e ∈ st.sessions, e.2.ref ∈ live ∧ e.2.peer = ep.sockAddr) →
    ∃ e ∈ st.sessions, e.2.peer = ep.sockAddr ∧ res = .registered e.2
  routed : ∀ ses, res.session = some ses → ses.peer = ep.sockAddr

/-- No live session is registered for the address of `ep`, and the first one registered for
another address with the same hash, if any, is not live. -/
def NoneLive (hashString : List UInt8 → UInt64) (st : MultiplexingSocketClient)
    (ep : EndPoint) (live : List ℕ) : Prop :=
  (∀ e ∈ st.sessions, e.2.ref ∈ live → e.1.sockAddr ≠ ep.sockAddr) ∧
    ∀ e, (st.sessions.find? fun e =>
        e.1.hash hashString == ep.hash hashString && e.1.sockAddr != ep.sockAddr) = some e →
      e.2.ref ∉ live

/-- What `connect` answers: a stream on the first session with the hash asked for and another
address, if that session is live; on a new session, or nothing, when there is none. -/
theorem connect_spec (hinv : ClientInv st) (hfree : st.locked = false) (ep : EndPoint)
    (live : List ℕ) (dial : Option ℕ) :
    ∃ res st', st.connect hashString ep live dial = some (res, st') ∧
      ((∃ e, st.findSession hashString ep = some e ∧ e ∈ st.sessions ∧
          e.2.peer ≠ ep.sockAddr ∧
          res = if e.2.ref ∈ live then .registered e.2 else .null) ∨
        (st.findSession hashString ep = none ∧
          (res = .null ∨ ∃ ref, res = .dialed ⟨ref, ep.sockAddr⟩))) := by
  simp only [connect, hfree, Bool.false_eq_true, if_false]
  cases hfind : st.findSession hashString ep with
  | none =>
      cases dial with
      | none => exact ⟨_, _, rfl, .inr ⟨rfl, .inl rfl⟩⟩
      | some ref =>
          by_cases href : ref ∈ live
          · simp only [if_pos href]
            exact ⟨_, _, rfl, .inr ⟨trivial, .inr ⟨ref, rfl⟩⟩⟩
          · simp only [if_neg href]
            exact ⟨_, _, rfl, .inr ⟨trivial, .inl rfl⟩⟩
  | some e =>
      obtain ⟨k, ses⟩ := e
      have hmem := HashTable.mem_of_find? hfind
      have hne : ses.peer ≠ ep.sockAddr := by
        rw [hinv.sessions _ hmem]
        exact (EndPoint.eq_iff.mp
          (HashTable.hits_iff.mp (HashTable.hits_of_find? hfind)).2).symm
      by_cases hlive : ses.ref ∈ live
      · simp only [if_pos hlive]
        exact ⟨_, _, rfl, .inl ⟨(k, ses), rfl, hmem, hne, by rw [if_pos hlive]⟩⟩
      · simp only [if_neg hlive]
        exact ⟨_, _, rfl, .inl ⟨(k, ses), rfl, hmem, hne, by rw [if_neg hlive]⟩⟩

/-- When `connect` reuses what it should. -/
theorem reuses_iff (hinv : ClientInv st) (hfree : st.locked = false) (ep : EndPoint)
    (live : List ℕ) (dial : Option ℕ) :
    ∃ res st', st.connect hashString ep live dial = some (res, st') ∧
      (Reuses st ep live res ↔ NoneLive hashString st ep live) := by
  obtain ⟨res, st', hconn, hres⟩ := @connect_spec hashString st hinv hfree ep live dial
  refine ⟨res, st', hconn, ?_⟩
  rw [NoneLive, ← findSession_eq]
  constructor
  · intro h
    refine ⟨fun e he hlive haddr => ?_, fun e he hlive => ?_⟩
    · -- nothing is ever opened on a registered session of the right address
      obtain ⟨e', -, hpeer, hreg⟩ := h.reused ⟨e, he, hlive, (hinv.sessions e he).trans haddr⟩
      obtain ⟨x, -, -, hne, hx⟩ | ⟨-, hx | ⟨ref, hx⟩⟩ := hres
      · rw [hreg] at hx
        split at hx
        · exact hne (Opened.registered.inj hx ▸ hpeer)
        · exact absurd hx (by simp)
      · exact absurd (hreg.symm.trans hx) (by simp)
      · exact absurd (hreg.symm.trans hx) (by simp)
    · obtain ⟨x, hx, -, hne, hres⟩ | ⟨hnone, -⟩ := hres
      · obtain rfl : e = x := Option.some.inj (he.symm.trans hx)
        rw [if_pos hlive] at hres
        exact hne (h.routed e.2 (by rw [hres]; rfl))
      · exact absurd (he.symm.trans hnone) (by simp)
  · rintro ⟨hnone, hfirst⟩
    refine ⟨fun ⟨e, he, hlive, hpeer⟩ => ?_, fun ses hses => ?_⟩
    · exact absurd ((hinv.sessions e he).symm.trans hpeer) (hnone e he hlive)
    · obtain ⟨x, hx, -, -, hres⟩ | ⟨-, rfl | ⟨ref, rfl⟩⟩ := hres
      · rw [hres, if_neg (hfirst x hx)] at hses
        exact absurd hses (by simp [Opened.session])
      · exact absurd hses (by simp [Opened.session])
      · rw [← Option.some.inj hses]

end MultiplexingSocketClient

/-! ### Both caches -/

/-- **When the caches do what they are for.** After every sequence of operations, for every
endpoint and every answer of the system:

* `connect` of the pool returns, and it hands out a pooled connection released for the
  address whenever an idle one is there, and none of another address, if and only if no idle
  connection of the pool has a key with the hash of the endpoint;
* `connect` of the client returns unless its mutex is held, and it opens the stream on a
  registered session for the address whenever a live one is there, and none on a session of
  another address, if and only if no live session is registered for the address and the
  first session with the same hash and another address, if any, is not live. -/
theorem endpoint_reuse_iff (hashString : List UInt8 → UInt64) :
    (∀ st, Reach (TcpSocketPoolClient.step hashString) always {} st →
      ∀ ep polled dial, ∃ res st', st.connect hashString ep polled dial = some (res, st') ∧
        (st.Reuses ep polled res ↔ st.NoneIdle hashString ep polled)) ∧
    (∀ st, Reach (MultiplexingSocketClient.step hashString) always {} st →
      st.locked = false → ∀ ep live dial, ∃ res st',
        st.connect hashString ep live dial = some (res, st') ∧
        (st.Reuses ep live res ↔ st.NoneLive hashString ep live)) := by
  refine ⟨fun st h ep polled dial => ?_, fun st h hfree ep live dial => ?_⟩
  · exact TcpSocketPoolClient.reuses_iff (TcpSocketPoolClient.poolInv_of_reach h) ep polled dial
  · exact MultiplexingSocketClient.reuses_iff (MultiplexingSocketClient.clientInv_of_reach h)
      hfree ep live dial

/-- The endpoint of a port of the loopback address. -/
def loopback (hi lo : UInt8) : EndPoint :=
  ⟨⟨[2, 0, hi, lo, 127, 0, 0, 1] ++ List.replicate 120 0, by simp⟩⟩

/-- A checksum as the hash of strings. -/
def checksum (bytes : List UInt8) : UInt64 :=
  bytes.foldl (fun h b => h * 31 + b.toUInt64) 0

/-- The theorem at a pool that holds a connection to one port, and at a client with a session
to one port, when the other port is asked for. -/
theorem reuse_other_port :
    (∃ st, Reach (TcpSocketPoolClient.step checksum) always {} st ∧
      st.streamList = [⟨0, loopback 31 144, ⟨7, 5⟩⟩] ∧
      ∃ res st', st.connect checksum (loopback 31 145) [] none = some (res, st') ∧
        st.Reuses (loopback 31 145) [] res) ∧
    (∃ st, Reach (MultiplexingSocketClient.step checksum) always {} st ∧
      st.sessions = [(loopback 31 144, ⟨0, (loopback 31 144).sockAddr⟩)] ∧
      ∃ res st', st.connect checksum (loopback 31 145) [0] none = some (res, st') ∧
        st.Reuses (loopback 31 145) [0] res) := by
  constructor
  · obtain ⟨st, hst, hlist⟩ : ∃ st, Reach (TcpSocketPoolClient.step checksum) always {} st ∧
        st.streamList = [⟨0, loopback 31 144, ⟨7, 5⟩⟩] :=
      Reach.exists_of_exec [.release (loopback 31 144) ⟨7, 5⟩ []
        [(loopback 31 144, ⟨0, loopback 31 144, ⟨7, 5⟩⟩)]] (by decide +kernel)
    obtain ⟨res, st', hconn, hiff⟩ :=
      (endpoint_reuse_iff checksum).1 st hst (loopback 31 145) [] none
    refine ⟨st, hst, hlist, res, st', hconn, hiff.mpr ?_⟩
    rw [TcpSocketPoolClient.NoneIdle, hlist]
    decide +kernel
  · obtain ⟨st, hst, hses, hfree⟩ : ∃ st, Reach (MultiplexingSocketClient.step checksum)
        always {} st ∧ st.sessions = [(loopback 31 144, ⟨0, (loopback 31 144).sockAddr⟩)] ∧
        st.locked = false :=
      Reach.exists_of_exec [.connect (loopback 31 144) [0] (some 0),
        .register (loopback 31 144, ⟨0, (loopback 31 144).sockAddr⟩)
          [(loopback 31 144, ⟨0, (loopback 31 144).sockAddr⟩)]] (by decide +kernel)
    obtain ⟨res, st', hconn, hiff⟩ :=
      (endpoint_reuse_iff checksum).2 st hst hfree (loopback 31 145) [0] none
    refine ⟨st, hst, hses, res, st', hconn, hiff.mpr ⟨?_, ?_⟩⟩
    · rw [hses]
      decide +kernel
    · have hnone : (st.sessions.find? fun e => e.1.hash checksum ==
          (loopback 31 145).hash checksum && e.1.sockAddr != (loopback 31 145).sockAddr) =
          none := by
        rw [hses]
        decide +kernel
      rw [hnone]
      simp

/-- **Nothing is reused**: after a connection has been released for an endpoint, `connect`
to the same endpoint dials while the idle connection stays in the pool; after a session has
been registered for an endpoint and is live, `connect` to it makes another session. -/
theorem pooled_connection_ignored :
    (∃ st, Reach (TcpSocketPoolClient.step checksum) always {} st ∧
      st.streamList = [⟨0, loopback 31 144, ⟨7, 5⟩⟩] ∧
      (st.connect checksum (loopback 31 144) [] (some ⟨8, 6⟩)).map Prod.fst =
        some (.dialed (some ⟨8, 6⟩))) ∧
    (∃ st, Reach (MultiplexingSocketClient.step checksum) always {} st ∧
      st.sessions = [(loopback 31 144, ⟨0, (loopback 31 144).sockAddr⟩)] ∧
      (st.connect checksum (loopback 31 144) [0, 1] (some 1)).map Prod.fst =
        some (.dialed ⟨1, (loopback 31 144).sockAddr⟩)) := by
  refine ⟨?_, ?_⟩
  · exact Reach.exists_of_exec [.release (loopback 31 144) ⟨7, 5⟩ []
      [(loopback 31 144, ⟨0, loopback 31 144, ⟨7, 5⟩⟩)]] (by decide +kernel)
  · exact Reach.exists_of_exec [.connect (loopback 31 144) [0] (some 0),
      .register (loopback 31 144, ⟨0, (loopback 31 144).sockAddr⟩)
        [(loopback 31 144, ⟨0, (loopback 31 144).sockAddr⟩)]] (by decide +kernel)

end ArchNet

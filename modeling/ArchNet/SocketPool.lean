import Mathlib.Logic.Function.Basic
import ArchNet.EndPoint
import ArchNet.HashTable
import ArchNet.Lts

/-!
# The Connection Pool

`TcpSocketPoolClient` of `socket_pool.h`: idle connections, kept under the endpoint they
were released for in a hash multimap, by descriptor in a second map, and in a list that owns
them. `connect` looks for an idle connection, dropping those that have become readable, and
dials when there is none; `release` puts a connection back; `drop_from_pool` is called by
the collector fiber for descriptors that poll as readable.

The polls are answered by the list of descriptors that report as readable, dialling by the
connection made, and the arrangement of the multimap after an insertion by the container.

## Main results

* `connectLoop_spec`: the search of `connect` ends, and what it hands out or leaves.
* `PoolInv.step`: the multimap and the list hold the same nodes, each under its own key.
-/

namespace ArchNet

open Lts

/-- A connected `ISocketStream` object and its descriptor. -/
structure Conn where
  obj : ℕ
  fd : ℤ
  deriving Repr, DecidableEq

/-- `struct StreamListNode`; `ref` is its place in memory. -/
structure StreamListNode where
  ref : ℕ
  key : EndPoint
  stream : Conn
  deriving DecidableEq

/-- `fd >= 0 && wait_fd_read_timeout(fd, 0) == 1` for the node's descriptor, when `polled`
are the descriptors that report as readable. -/
def StreamListNode.readable (polled : List ℤ) (n : StreamListNode) : Bool :=
  decide (0 ≤ n.stream.fd) && polled.contains n.stream.fd

/-- `class TcpSocketPoolClient`; `nodes` counts the nodes ever made. -/
structure TcpSocketPoolClient where
  ep2stream : List (EndPoint × StreamListNode) := []
  fd2ep : ℤ → Option EndPoint := fun _ => none
  streamList : List StreamListNode := []
  nodes : ℕ := 0

/-- What `connect` returns: a pooled connection, or the result of dialling. -/
inductive Connected
  | pooled (n : StreamListNode)
  | dialed (c : Option Conn)
  deriving DecidableEq

namespace TcpSocketPoolClient

variable (hashString : List UInt8 → UInt64)

/-- `ep2stream_map_.find(ep)`. -/
def findStream (st : TcpSocketPoolClient) (ep : EndPoint) :
    Option (EndPoint × StreamListNode) :=
  HashTable.find? (EndPoint.hash hashString) EndPoint.eq st.ep2stream ep

/-- The node that was found leaves the three containers. -/
def takeFound (st : TcpSocketPoolClient) (ep : EndPoint) (n : StreamListNode) :
    TcpSocketPoolClient :=
  { st with
    fd2ep := if 0 ≤ n.stream.fd then Function.update st.fd2ep n.stream.fd none else st.fd2ep
    ep2stream :=
      HashTable.eraseFound (EndPoint.hash hashString) EndPoint.eq st.ep2stream ep
    streamList := st.streamList.erase n }

/-- The loop of `connect`: the node handed out, or `none` when the look-up finds nothing and
the caller dials. Every round removes an entry, which bounds the fuel it needs. -/
def connectLoop (polled : List ℤ) (remote : EndPoint) :
    ℕ → TcpSocketPoolClient → Option (Option StreamListNode × TcpSocketPoolClient)
  | 0, _ => none
  | fuel + 1, st =>
      match st.findStream hashString remote with
      | none => some (none, st)
      | some (_, n) =>
          if n.readable polled then
            connectLoop polled remote fuel (st.takeFound hashString remote n)
          else some (some n, st.takeFound hashString remote n)

/-- `connect(remote)`; `dial` is the answer of `client_->connect(remote)`. -/
def connect (st : TcpSocketPoolClient) (remote : EndPoint) (polled : List ℤ)
    (dial : Option Conn) : Option (Connected × TcpSocketPoolClient) :=
  (connectLoop hashString polled remote (st.ep2stream.length + 1) st).map fun
    | (some n, st') => (.pooled n, st')
    | (none, st') => (.dialed dial, st')

/-- `release(ep, stream)`: whether the stream was taken back. The container may put its
entries in any order when it takes a new one; `order` is the one it chooses. -/
def release (st : TcpSocketPoolClient) (ep : EndPoint) (c : Conn) (polled : List ℤ)
    (order : List (EndPoint × StreamListNode)) : Option (Bool × TcpSocketPoolClient) :=
  let n : StreamListNode := ⟨st.nodes, ep, c⟩
  if n.readable polled then some (false, st)
  else if order.Perm ((ep, n) :: st.ep2stream) then
    some (true, { st with
      fd2ep := if 0 ≤ c.fd ∧ st.fd2ep c.fd = none then
          Function.update st.fd2ep c.fd (some ep) else st.fd2ep
      ep2stream := order
      streamList := st.streamList ++ [n]
      nodes := st.nodes + 1 })
  else none

/-- The search of `drop_from_pool`: from the entry that `find(ep)` stops at, as long as the
keys equal `ep`, the first node with descriptor `fd`. -/
def findFd (st : TcpSocketPoolClient) (ep : EndPoint) (fd : ℤ) :
    Option (EndPoint × StreamListNode) :=
  ((st.ep2stream.dropWhile fun e =>
      !HashTable.hits (EndPoint.hash hashString) EndPoint.eq ep e).takeWhile fun e =>
    EndPoint.eq e.1 ep).find? fun e => e.2.stream.fd == fd

/-- `drop_from_pool(fd)`. -/
def dropFromPool (st : TcpSocketPoolClient) (fd : ℤ) : TcpSocketPoolClient :=
  match st.fd2ep fd with
  | none => st
  | some ep =>
      let st := { st with fd2ep := Function.update st.fd2ep fd none }
      match st.findFd hashString ep fd with
      | none => st
      | some e => { st with
          ep2stream := st.ep2stream.erase e, streamList := st.streamList.erase e.2 }

/-- The operations on the pool. -/
inductive PoolAction
  | connect (ep : EndPoint) (polled : List ℤ) (dial : Option Conn)
  | release (ep : EndPoint) (c : Conn) (polled : List ℤ)
      (order : List (EndPoint × StreamListNode))
  | dropFromPool (fd : ℤ)

/-- One operation. -/
def step (st : TcpSocketPoolClient) : PoolAction → Option TcpSocketPoolClient
  | .connect ep polled dial => (st.connect hashString ep polled dial).map Prod.snd
  | .release ep c polled order => (st.release ep c polled order).map Prod.snd
  | .dropFromPool fd => some (st.dropFromPool hashString fd)

variable {hashString} {st st' : TcpSocketPoolClient} {remote : EndPoint} {polled : List ℤ}
  {e : EndPoint × StreamListNode}

/-! ### The search of `connect` -/

/-- The look-up stops at an entry with the same hash and **another** address. -/
theorem findStream_eq_some (h : st.findStream hashString remote = some e) :
    e ∈ st.ep2stream ∧ e.1.hash hashString = remote.hash hashString ∧
      e.1.sockAddr ≠ remote.sockAddr := by
  obtain ⟨hhash, heq⟩ := HashTable.hits_iff.mp (HashTable.hits_of_find? h)
  exact ⟨HashTable.mem_of_find? h, hhash, (EndPoint.eq_iff.mp heq).symm⟩

/-- A look-up that finds nothing leaves only entries of the same address among those with
the same hash. -/
theorem findStream_eq_none (h : st.findStream hashString remote = none)
    (he : e ∈ st.ep2stream) (hhash : e.1.hash hashString = remote.hash hashString) :
    e.1.sockAddr = remote.sockAddr := by
  by_contra hne
  have hhit := HashTable.hits_iff.mpr ⟨hhash, EndPoint.eq_iff.mpr (Ne.symm hne)⟩
  rw [HashTable.not_hits_of_find? h he] at hhit
  exact absurd hhit (by simp)

/-- **The search of `connect` ends.** It hands out an idle node whose key has the hash of
the endpoint asked for and another address; when it finds none, there is none. -/
theorem connectLoop_spec (fuel : ℕ) (st : TcpSocketPoolClient)
    (hfuel : st.ep2stream.length < fuel) :
    ∃ r st', connectLoop hashString polled remote fuel st = some (r, st') ∧
      (r = none → ∀ e ∈ st.ep2stream, e.1.hash hashString = remote.hash hashString →
        e.1.sockAddr ≠ remote.sockAddr → e.2.readable polled = true) ∧
      (∀ n, r = some n → ∃ k, (k, n) ∈ st.ep2stream ∧
        k.hash hashString = remote.hash hashString ∧ k.sockAddr ≠ remote.sockAddr ∧
        n.readable polled = false) := by
  induction fuel generalizing st with
  | zero => omega
  | succ fuel ih =>
      rw [connectLoop]
      cases hfind : st.findStream hashString remote with
      | none =>
          refine ⟨none, st, rfl, fun _ e he hhash hne => ?_, by simp⟩
          exact absurd (findStream_eq_none hfind he hhash) hne
      | some e =>
          obtain ⟨k, n⟩ := e
          obtain ⟨hmem, hhash, hne⟩ := findStream_eq_some hfind
          have hperm := HashTable.perm_eraseFound hfind
          cases hread : n.readable polled with
          | false =>
              refine ⟨some n, st.takeFound hashString remote n, ?_, by simp, fun m hm => ?_⟩
              · simp only [hread, Bool.false_eq_true, if_false]
              · obtain rfl : n = m := Option.some.inj hm
                exact ⟨k, hmem, hhash, hne, hread⟩
          | true =>
              have hlen := HashTable.length_eraseFound hfind
              obtain ⟨r, st', hloop, hnone, hsome⟩ :=
                ih (st.takeFound hashString remote n) (by simp only [takeFound]; omega)
              refine ⟨r, st', ?_, fun hr e he hhash' hne' => ?_, fun m hm => ?_⟩
              · simp only [hread, if_true, hloop]
              · -- an entry of the table is the one just dropped, or still there
                obtain rfl | he := List.mem_cons.mp (hperm.mem_iff.mp he)
                · exact hread
                · exact hnone hr e he hhash' hne'
              · obtain ⟨k', hk', hrest⟩ := hsome m hm
                exact ⟨k', hperm.mem_iff.mpr (List.mem_cons_of_mem _ hk'), hrest⟩

/-- What taking a found node keeps, the search keeps. -/
theorem connectLoop_invariant {P : TcpSocketPoolClient → Prop} {r : Option StreamListNode}
    (htake : ∀ {st e}, P st → st.findStream hashString remote = some e →
      P (st.takeFound hashString remote e.2)) (fuel : ℕ) (hP : P st)
    (h : connectLoop hashString polled remote fuel st = some (r, st')) : P st' := by
  induction fuel generalizing st with
  | zero => simp [connectLoop] at h
  | succ fuel ih =>
      rw [connectLoop] at h
      cases hfind : st.findStream hashString remote with
      | none =>
          rw [hfind] at h
          obtain ⟨-, rfl⟩ := Prod.mk.inj (Option.some.inj h)
          exact hP
      | some e =>
          rw [hfind] at h
          dsimp only at h
          split at h
          · exact ih (htake hP hfind) h
          · obtain ⟨-, rfl⟩ := Prod.mk.inj (Option.some.inj h)
            exact htake hP hfind

/-! ### The nodes of the pool -/

/-- The multimap and the list hold the same nodes, and each stands under its own key. -/
structure PoolInv (st : TcpSocketPoolClient) : Prop where
  nodes : (st.ep2stream.map Prod.snd).Perm st.streamList
  keys : ∀ e ∈ st.ep2stream, e.2.key = e.1

theorem PoolInv.takeFound (hinv : PoolInv st)
    (hfind : st.findStream hashString remote = some e) :
    PoolInv (st.takeFound hashString remote e.2) := by
  have hperm := HashTable.perm_eraseFound hfind
  refine ⟨?_, fun x hx => hinv.keys x (hperm.mem_iff.mpr (List.mem_cons_of_mem _ hx))⟩
  have hnodes := ((hperm.map Prod.snd).symm.trans hinv.nodes).erase e.2
  rw [List.map_cons, List.erase_cons_head] at hnodes
  exact hnodes

theorem PoolInv.erase (hinv : PoolInv st) (he : e ∈ st.ep2stream) {m : ℤ → Option EndPoint} :
    PoolInv { st with
      fd2ep := m, ep2stream := st.ep2stream.erase e, streamList := st.streamList.erase e.2 } := by
  refine ⟨?_, fun x hx => hinv.keys x (List.mem_of_mem_erase hx)⟩
  have hperm := List.perm_cons_erase he
  have hnodes := ((hperm.map Prod.snd).symm.trans hinv.nodes).erase e.2
  rw [List.map_cons, List.erase_cons_head] at hnodes
  exact hnodes

/-- **Every operation keeps the nodes of the two containers the same.** -/
theorem PoolInv.step {a : PoolAction} (hinv : PoolInv st)
    (h : st.step hashString a = some st') : PoolInv st' := by
  cases a with
  | connect ep polled dial =>
      obtain ⟨⟨res, st₁⟩, hconn, rfl⟩ := Option.map_eq_some_iff.mp h
      obtain ⟨⟨r, st₂⟩, hloop, heq⟩ := Option.map_eq_some_iff.mp hconn
      have hinv₂ : PoolInv st₂ := connectLoop_invariant
        (fun hinv hfind => hinv.takeFound hfind) _ hinv hloop
      cases r <;> exact (Prod.mk.inj heq).2 ▸ hinv₂
  | release ep c polled order =>
      obtain ⟨⟨ok, st₁⟩, hrel, rfl⟩ := Option.map_eq_some_iff.mp h
      simp only [release] at hrel
      split at hrel
      · obtain ⟨-, rfl⟩ := Prod.mk.inj (Option.some.inj hrel)
        exact hinv
      · split at hrel
        · next hperm =>
            obtain ⟨-, rfl⟩ := Prod.mk.inj (Option.some.inj hrel)
            refine ⟨?_, fun x hx => ?_⟩
            · refine (hperm.map Prod.snd).trans ?_
              exact ((List.Perm.cons _ hinv.nodes).trans (List.perm_append_singleton _ _).symm)
            · obtain rfl | hx := List.mem_cons.mp (hperm.mem_iff.mp hx)
              · rfl
              · exact hinv.keys x hx
        · exact absurd hrel (by simp)
  | dropFromPool fd =>
      rw [← Option.some.inj h]
      rw [dropFromPool]
      split
      · exact hinv
      · dsimp only
        split
        · exact ⟨hinv.nodes, hinv.keys⟩
        · next hfind =>
            have hmem := List.mem_of_find?_eq_some hfind
            exact hinv.erase ((List.dropWhile_sublist _).mem
              ((List.takeWhile_sublist _).mem hmem))

/-- After every sequence of operations the nodes of the two containers are the same. -/
theorem poolInv_of_reach (h : Reach (step hashString) always {} st) : PoolInv st := by
  have hinit : PoolInv {} := ⟨List.Perm.refl [], by simp⟩
  exact h.invariant PoolInv hinit fun hinv _ hs => hinv.step hs

end TcpSocketPoolClient

end ArchNet

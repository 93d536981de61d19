import Mathlib.Data.List.Pairwise
import Mathlib.Data.List.TakeWhile
import ArchNet.EndpointReuse

/-!
# The Three Containers of the Connection Pool

`TcpSocketPoolClient` keeps its idle connections in a multimap by endpoint, in a map by
descriptor and in a list that owns them. This module follows the three of them together with
the streams that are outside: handed out by `connect` or dropped by `drop_from_pool`, and
neither released again nor gone for good.

* `PoolRun` — the pool and the streams outside it, with their operations.
* `RepOk` — the containers agree, and nothing that is outside is in any of them.
* `distinctFds` — the system's part: two open streams are two objects with two descriptors.
* `dropsNothing` — `drop_from_pool` is not called for a descriptor that is pooled.

## Main results

* `repOk_of_reach`: **the containers agree** in every run in which `drop_from_pool` is not
  called for a pooled descriptor.
* `not_repOk_of_drop`: **every other call breaks them** — the search for the node goes by the
  inverted equality and passes it over, and the descriptor is forgotten.
-/

namespace ArchNet

open Lts

/-- Two open streams: two objects, and two descriptors unless one has none. -/
def Conn.Apart (c d : Conn) : Prop := c.obj ≠ d.obj ∧ (0 ≤ c.fd → c.fd ≠ d.fd)

instance (c d : Conn) : Decidable (c.Apart d) :=
  inferInstanceAs (Decidable (c.obj ≠ d.obj ∧ (0 ≤ c.fd → c.fd ≠ d.fd)))

theorem Conn.Apart.symm {c d : Conn} (h : c.Apart d) : d.Apart c :=
  ⟨h.1.symm, fun hd heq => h.2 (heq ▸ hd) heq.symm⟩

/-- The pool, and the streams that `connect` has handed out or `drop_from_pool` dropped. -/
structure PoolRun where
  pool : TcpSocketPoolClient := {}
  out : List Conn := []

/-- The operations on the pool, and the end of a stream that is outside: its owner has
deleted it, and the system may give its descriptor out again. -/
inductive RunAction
  | op (a : TcpSocketPoolClient.PoolAction)
  | forget (c : Conn)

namespace PoolRun

variable (hashString : List UInt8 → UInt64)

/-- The stream a call of `connect` hands out. -/
def handed : Connected → List Conn
  | .pooled n => [n.stream]
  | .dialed c => c.toList

/-- The streams that `drop_from_pool(fd)` is called for: those of the nodes with this
descriptor, when it is in `fd2ep_map_`. -/
def dropped (st : TcpSocketPoolClient) (fd : ℤ) : List Conn :=
  if (st.fd2ep fd).isSome then
    (st.streamList.filter fun n => n.stream.fd == fd).map StreamListNode.stream
  else []

/-- One operation. -/
def step (s : PoolRun) : RunAction → Option PoolRun
  | .op (.connect ep polled dial) =>
      (s.pool.connect hashString ep polled dial).map fun (res, pool) =>
        { pool := pool, out := handed res ++ s.out }
  | .op (.release ep c polled order) =>
      (s.pool.release ep c polled order).map fun (ok, pool) =>
        { pool := pool, out := if ok then s.out.filter (· != c) else s.out }
  | .op (.dropFromPool fd) =>
      some { pool := s.pool.dropFromPool hashString fd, out := dropped s.pool fd ++ s.out }
  | .forget c => some { s with out := s.out.filter (· != c) }

/-- A stream is apart from those that are pooled and from the others that are outside. -/
def fresh (s : PoolRun) (c : Conn) : Bool :=
  s.pool.streamList.all (fun n => decide (c.Apart n.stream)) &&
    s.out.all fun d => d == c || decide (c.Apart d)

/-- The system gives no object and no descriptor out twice: a dialled stream is none of the
open ones, and a released stream is not one that is pooled already. -/
def distinctFds (s : PoolRun) : RunAction → Bool
  | .op (.connect _ _ (some c)) => s.fresh c && !s.out.contains c
  | .op (.release _ c _ _) => s.fresh c
  | _ => true

/-- `drop_from_pool` is not called for a descriptor that is pooled. -/
def dropsNothing (s : PoolRun) : RunAction → Bool
  | .op (.dropFromPool fd) => (s.pool.fd2ep fd).isNone
  | _ => true

/-- **The containers agree**: the multimap and the list hold the same nodes, each once; the
descriptors are those of the nodes that have one, each with the address of its node; and no
stream that is outside is in any of the three. -/
structure RepOk (s : PoolRun) : Prop where
  nodes : (s.pool.ep2stream.map Prod.snd).Perm s.pool.streamList
  nodup : s.pool.streamList.Nodup
  fds : ∀ fd, (s.pool.fd2ep fd).isSome = true ↔
    0 ≤ fd ∧ ∃ n ∈ s.pool.streamList, n.stream.fd = fd
  keys : ∀ fd ep n, s.pool.fd2ep fd = some ep → n ∈ s.pool.streamList → n.stream.fd = fd →
    ep.sockAddr = n.key.sockAddr
  outside : ∀ c ∈ s.out, (∀ e ∈ s.pool.ep2stream, e.2.stream ≠ c) ∧
    (∀ n ∈ s.pool.streamList, n.stream ≠ c) ∧ (0 ≤ c.fd → s.pool.fd2ep c.fd = none)

end PoolRun

/-! ### The pool -/

namespace TcpSocketPoolClient

variable {hashString : List UInt8 → UInt64} {st st' : TcpSocketPoolClient}
  {remote : EndPoint} {polled : List ℤ} {e : EndPoint × StreamListNode}

/-- The nodes are those of open streams, and the descriptor map is the index of the nodes
that have a descriptor. -/
structure Indexed (st : TcpSocketPoolClient) : Prop where
  inv : PoolInv st
  apart : st.streamList.Pairwise fun m n => m.stream.Apart n.stream
  index : ∀ fd ep, st.fd2ep fd = some ep ↔
    0 ≤ fd ∧ ∃ n ∈ st.streamList, n.stream.fd = fd ∧ n.key = ep

theorem Indexed.nodup (h : Indexed st) : st.streamList.Nodup := by
  refine h.apart.imp fun {m n} hmn heq => hmn.1 ?_
  rw [heq]

/-- Two different nodes are apart. -/
theorem Indexed.apart_of_ne (h : Indexed st) {m n : StreamListNode} (hm : m ∈ st.streamList)
    (hn : n ∈ st.streamList) (hne : m ≠ n) : m.stream.Apart n.stream := by
  have : Std.Symm fun m n : StreamListNode => m.stream.Apart n.stream :=
    ⟨fun _ _ hmn => hmn.symm⟩
  exact h.apart.forall hm hn hne

/-- A descriptor without a node is not in the index. -/
theorem Indexed.fd2ep_eq_none (h : Indexed st) {fd : ℤ}
    (hfd : 0 ≤ fd → ∀ n ∈ st.streamList, n.stream.fd ≠ fd) : st.fd2ep fd = none := by
  rw [Option.eq_none_iff_forall_ne_some]
  intro ep hep
  obtain ⟨hpos, n, hn, hnfd, -⟩ := (h.index fd ep).mp hep
  exact hfd hpos n hn hnfd

theorem Indexed.mem_streamList (h : Indexed st)
    (hfind : st.findStream hashString remote = some e) : e.2 ∈ st.streamList :=
  h.inv.nodes.mem_iff.mp (List.mem_map_of_mem (HashTable.mem_of_find? hfind))

/-- Taking a found node out keeps the containers in step. -/
theorem Indexed.takeFound (h : Indexed st)
    (hfind : st.findStream hashString remote = some e) :
    Indexed (st.takeFound hashString remote e.2) := by
  have hmem := h.mem_streamList hfind
  refine ⟨h.inv.takeFound hfind, h.apart.sublist List.erase_sublist, fun fd ep => ?_⟩
  simp only [TcpSocketPoolClient.takeFound, h.nodup.mem_erase_iff]
  by_cases hfd : 0 ≤ e.2.stream.fd ∧ fd = e.2.stream.fd
  · -- the descriptor of the node that leaves: no other node has it
    obtain ⟨hpos, rfl⟩ := hfd
    rw [if_pos hpos, Function.update_self]
    refine ⟨fun hnone => absurd hnone (by simp), ?_⟩
    rintro ⟨-, n, ⟨hne, hn⟩, hnfd, -⟩
    exact absurd hnfd.symm ((h.apart_of_ne hmem hn (Ne.symm hne)).2 hpos)
  · have hother : (if 0 ≤ e.2.stream.fd then Function.update st.fd2ep e.2.stream.fd none
        else st.fd2ep) fd = st.fd2ep fd := by
      split
      · next hpos => exact Function.update_of_ne (fun heq => hfd ⟨hpos, heq⟩) _ _
      · rfl
    rw [hother, h.index fd ep]
    refine and_congr_right fun hpos => exists_congr fun n => ?_
    constructor
    · rintro ⟨hn, hnfd, hkey⟩
      refine ⟨⟨fun heq => hfd ?_, hn⟩, hnfd, hkey⟩
      subst heq
      exact ⟨hnfd ▸ hpos, hnfd.symm⟩
    · rintro ⟨⟨-, hn⟩, hnfd, hkey⟩
      exact ⟨hn, hnfd, hkey⟩

/-- What the search of `connect` leaves and what it hands out. -/
theorem connectLoop_handed {r : Option StreamListNode} (fuel : ℕ) (hst : Indexed st)
    (h : connectLoop hashString polled remote fuel st = some (r, st')) :
    Indexed st' ∧ st'.streamList.Sublist st.streamList ∧
      ∀ n, r = some n → n ∈ st.streamList ∧ n ∉ st'.streamList := by
  induction fuel generalizing st with
  | zero => simp [connectLoop] at h
  | succ fuel ih =>
      rw [connectLoop] at h
      cases hfind : st.findStream hashString remote with
      | none =>
          rw [hfind] at h
          obtain ⟨rfl, rfl⟩ := Prod.mk.inj (Option.some.inj h)
          exact ⟨hst, List.Sublist.refl _, by simp⟩
      | some e =>
          rw [hfind] at h
          dsimp only at h
          have htake := hst.takeFound hfind
          split at h
          · obtain ⟨hst', hsub, hout⟩ := ih htake h
            refine ⟨hst', hsub.trans List.erase_sublist, fun n hn => ?_⟩
            exact ⟨List.mem_of_mem_erase (hout n hn).1, (hout n hn).2⟩
          · obtain ⟨rfl, rfl⟩ := Prod.mk.inj (Option.some.inj h)
            refine ⟨htake, List.erase_sublist, fun n hn => ?_⟩
            obtain rfl : e.2 = n := Option.some.inj hn
            exact ⟨hst.mem_streamList hfind, hst.nodup.not_mem_erase⟩

/-- A stream that is apart from the pooled ones is taken back. -/
theorem Indexed.release (hashString : List UInt8 → UInt64) {ep : EndPoint} {c : Conn}
    {order : List (EndPoint × StreamListNode)} {ok : Bool} (hst : Indexed st)
    (hc : ∀ n ∈ st.streamList, c.Apart n.stream)
    (h : st.release ep c polled order = some (ok, st')) :
    Indexed st' ∧ st'.streamList =
      if ok then st.streamList ++ [⟨st.nodes, ep, c⟩] else st.streamList := by
  have hstep : st.step hashString (.release ep c polled order) = some st' := by
    rw [step, h, Option.map_some]
  have hinv := hst.inv.step hstep
  have hfree : 0 ≤ c.fd → st.fd2ep c.fd = none := fun hpos =>
    hst.fd2ep_eq_none fun _ n hn heq => (hc n hn).2 hpos heq.symm
  simp only [TcpSocketPoolClient.release] at h
  split at h
  · obtain ⟨rfl, rfl⟩ := Prod.mk.inj (Option.some.inj h)
    exact ⟨hst, rfl⟩
  split at h
  · obtain ⟨rfl, rfl⟩ := Prod.mk.inj (Option.some.inj h)
    refine ⟨⟨hinv, ?_, fun fd ep' => ?_⟩, rfl⟩
    · rw [List.pairwise_append]
      refine ⟨hst.apart, List.pairwise_singleton _ _, fun n hn m hm => ?_⟩
      rw [List.mem_singleton.mp hm]
      exact (hc n hn).symm
    · simp only [List.mem_append, List.mem_singleton]
      by_cases hfd : 0 ≤ c.fd ∧ fd = c.fd
      · obtain ⟨hpos, rfl⟩ := hfd
        rw [if_pos ⟨hpos, hfree hpos⟩, Function.update_self, Option.some.injEq]
        constructor
        · rintro rfl
          exact ⟨hpos, _, .inr rfl, rfl, rfl⟩
        · rintro ⟨-, n, hn | rfl, hnfd, hkey⟩
          · exact absurd hnfd.symm ((hc n hn).2 hpos)
          · exact hkey
      · have hother : (if 0 ≤ c.fd ∧ st.fd2ep c.fd = none then
            Function.update st.fd2ep c.fd (some ep) else st.fd2ep) fd = st.fd2ep fd := by
          split
          · next hpos => exact Function.update_of_ne (fun heq => hfd ⟨hpos.1, heq⟩) _ _
          · rfl
        rw [hother, hst.index fd ep']
        refine and_congr_right fun hpos => ⟨?_, ?_⟩
        · rintro ⟨n, hn, hrest⟩
          exact ⟨n, .inl hn, hrest⟩
        · rintro ⟨n, hn | rfl, hnfd, hkey⟩
          · exact ⟨n, hn, hnfd, hkey⟩
          · exact absurd ⟨hnfd ▸ hpos, hnfd.symm⟩ hfd
  · exact absurd h (by simp)

/-- A descriptor that is not in the index is not there to drop. -/
theorem dropFromPool_of_none {fd : ℤ} (h : st.fd2ep fd = none) :
    st.dropFromPool hashString fd = st := by
  rw [dropFromPool, h]

/-- **The search of `drop_from_pool` passes the node over**: it goes on only along keys with
another address, and the node with the descriptor has the address of its entry. -/
theorem findFd_eq_none (hst : Indexed st) {fd : ℤ} {ep : EndPoint}
    (hep : st.fd2ep fd = some ep) : st.findFd hashString ep fd = none := by
  obtain ⟨hpos, n, hn, hnfd, hkey⟩ := (hst.index fd ep).mp hep
  rw [findFd, List.find?_eq_none]
  intro x hx hfd
  have hkeyEq : EndPoint.eq x.1 ep = true :=
    List.mem_takeWhile_imp (p := fun e : EndPoint × StreamListNode => EndPoint.eq e.1 ep) hx
  have hne := EndPoint.eq_iff.mp hkeyEq
  have hmem : x ∈ st.ep2stream :=
    (List.dropWhile_sublist _).mem ((List.takeWhile_sublist _).mem hx)
  have hx2 : x.2 ∈ st.streamList := hst.inv.nodes.mem_iff.mp (List.mem_map_of_mem hmem)
  -- descriptors are distinct, so this is the node of the entry
  obtain rfl : x.2 = n := by
    by_contra hdiff
    have hxfd : x.2.stream.fd = fd := by simpa using hfd
    exact (hst.apart_of_ne hx2 hn hdiff).2 (hxfd ▸ hpos) (hxfd.trans hnfd.symm)
  exact hne (by rw [← hst.inv.keys x hmem, hkey])

end TcpSocketPoolClient

/-! ### Runs -/

namespace PoolRun

variable {hashString : List UInt8 → UInt64} {s s' : PoolRun} {a : RunAction}

/-- The containers are in step, and what is outside is apart from what is pooled. -/
structure RunInv (s : PoolRun) : Prop where
  indexed : s.pool.Indexed
  outside : ∀ c ∈ s.out, ∀ n ∈ s.pool.streamList, c.Apart n.stream

theorem RunInv.repOk (h : RunInv s) : RepOk s where
  nodes := h.indexed.inv.nodes
  nodup := h.indexed.nodup
  fds fd := by
    rw [Option.isSome_iff_exists]
    constructor
    · rintro ⟨ep, hep⟩
      obtain ⟨hpos, n, hn, hnfd, -⟩ := (h.indexed.index fd ep).mp hep
      exact ⟨hpos, n, hn, hnfd⟩
    · rintro ⟨hpos, n, hn, hnfd⟩
      exact ⟨n.key, (h.indexed.index fd n.key).mpr ⟨hpos, n, hn, hnfd, rfl⟩⟩
  keys fd ep n hep hn hnfd := by
    obtain ⟨hpos, m, hm, hmfd, hkey⟩ := (h.indexed.index fd ep).mp hep
    obtain rfl : m = n := by
      by_contra hdiff
      exact (h.indexed.apart_of_ne hm hn hdiff).2 (hmfd ▸ hpos) (hmfd.trans hnfd.symm)
    rw [hkey]
  outside c hc := by
    have hnode : ∀ n ∈ s.pool.streamList, n.stream ≠ c := fun n hn heq =>
      (h.outside c hc n hn).1 (heq ▸ rfl)
    refine ⟨fun e he => hnode e.2 ?_, hnode, fun hpos => ?_⟩
    · exact h.indexed.inv.nodes.mem_iff.mp (List.mem_map_of_mem he)
    · exact h.indexed.fd2ep_eq_none fun _ n hn heq => (h.outside c hc n hn).2 hpos heq.symm

theorem apart_of_fresh {c : Conn} (h : s.fresh c = true) :
    (∀ n ∈ s.pool.streamList, c.Apart n.stream) ∧ ∀ d ∈ s.out, d = c ∨ c.Apart d := by
  rw [fresh, Bool.and_eq_true, List.all_eq_true, List.all_eq_true] at h
  refine ⟨fun n hn => of_decide_eq_true (h.1 n hn), fun d hd => ?_⟩
  have hdc := h.2 d hd
  rw [Bool.or_eq_true, beq_iff_eq, decide_eq_true_eq] at hdc
  exact hdc

/-- **Every operation but the dropping of a pooled descriptor keeps the containers in
step.** -/
theorem RunInv.step (hinv : RunInv s)
    (hC : (distinctFds s a && dropsNothing s a) = true)
    (h : s.step hashString a = some s') : RunInv s' := by
  obtain ⟨hdist, hdrop⟩ := Bool.and_eq_true_iff.mp hC
  cases a with
  | op a =>
      cases a with
      | connect ep polled dial =>
          obtain ⟨⟨res, st'⟩, hconn, rfl⟩ := Option.map_eq_some_iff.mp h
          obtain ⟨⟨r, st₂⟩, hloop, heq⟩ := Option.map_eq_some_iff.mp hconn
          obtain ⟨hst, hsub, hout⟩ :=
            TcpSocketPoolClient.connectLoop_handed _ hinv.indexed hloop
          have hkeep : ∀ c ∈ s.out, ∀ n ∈ st₂.streamList, c.Apart n.stream :=
            fun c hc n hn => hinv.outside c hc n (hsub.mem hn)
          cases r with
          | some m =>
              obtain ⟨rfl, rfl⟩ := Prod.mk.inj heq
              obtain ⟨hm, hgone⟩ := hout m rfl
              refine ⟨hst, fun c hc n hn => ?_⟩
              obtain rfl | hc := List.mem_cons.mp hc
              · exact hinv.indexed.apart_of_ne hm (hsub.mem hn) fun heq => hgone (heq ▸ hn)
              · exact hkeep c hc n hn
          | none =>
              obtain ⟨rfl, rfl⟩ := Prod.mk.inj heq
              refine ⟨hst, fun c hc n hn => ?_⟩
              obtain hc | hc := List.mem_append.mp hc
              · obtain rfl : dial = some c := by simpa [handed] using hc
                rw [distinctFds, Bool.and_eq_true] at hdist
                exact (apart_of_fresh hdist.1).1 n (hsub.mem hn)
              · exact hkeep c hc n hn
      | release ep c polled order =>
          obtain ⟨⟨ok, st'⟩, hrel, rfl⟩ := Option.map_eq_some_iff.mp h
          obtain ⟨hpool, hout⟩ := apart_of_fresh hdist
          obtain ⟨hst, hlist⟩ := hinv.indexed.release hashString hpool hrel
          refine ⟨hst, fun d hd n hn => ?_⟩
          rw [hlist] at hn
          cases ok with
          | false => exact hinv.outside d hd n hn
          | true =>
              obtain ⟨hd, hne⟩ : d ∈ s.out ∧ d ≠ c := by simpa using hd
              obtain hn | hn := List.mem_append.mp hn
              · exact hinv.outside d hd n hn
              · rw [List.mem_singleton.mp hn]
                exact ((hout d hd).resolve_left hne).symm
      | dropFromPool fd =>
          have hnone : s.pool.fd2ep fd = none := by simpa [dropsNothing] using hdrop
          obtain rfl := Option.some.inj h
          rw [TcpSocketPoolClient.dropFromPool_of_none hnone, dropped, hnone]
          exact ⟨hinv.indexed, hinv.outside⟩
  | forget c =>
      obtain rfl := Option.some.inj h
      exact ⟨hinv.indexed, fun d hd => hinv.outside d (List.mem_of_mem_filter hd)⟩

theorem runInv_of_reach
    (h : Reach (step hashString) (fun s a => distinctFds s a && dropsNothing s a) {} s) :
    RunInv s := by
  have hinit : RunInv {} := ⟨⟨⟨List.Perm.refl [], by simp⟩, List.Pairwise.nil, by simp⟩, by simp⟩
  exact h.invariant RunInv hinit fun hinv hC hs => hinv.step hC hs

/-- **The containers agree** after every sequence of `connect`, `release` and
`drop_from_pool` on open streams in which no pooled descriptor is dropped. -/
theorem repOk_of_reach
    (h : Reach (step hashString) (fun s a => distinctFds s a && dropsNothing s a) {} s) :
    RepOk s :=
  (runInv_of_reach h).repOk

/-- **Dropping a pooled descriptor breaks the containers**: its node stays in the multimap
and in the list, without an entry. -/
theorem not_repOk_of_drop {fd : ℤ} (hinv : RunInv s) (hfd : (s.pool.fd2ep fd).isSome = true)
    (h : s.step hashString (.op (.dropFromPool fd)) = some s') : ¬ RepOk s' := by
  obtain ⟨ep, hep⟩ := Option.isSome_iff_exists.mp hfd
  obtain ⟨hpos, n, hn, hnfd, -⟩ := (hinv.indexed.index fd ep).mp hep
  obtain rfl := Option.some.inj h
  intro hok
  have hnone := @TcpSocketPoolClient.findFd_eq_none hashString _ hinv.indexed _ _ hep
  have hpool : s.pool.dropFromPool hashString fd =
      { s.pool with fd2ep := Function.update s.pool.fd2ep fd none } := by
    rw [TcpSocketPoolClient.dropFromPool, hep]
    dsimp only
    rw [show TcpSocketPoolClient.findFd hashString
      { s.pool with fd2ep := Function.update s.pool.fd2ep fd none } ep fd = none from hnone]
  have hsome := (hok.fds fd).mpr ⟨hpos, n, by rw [hpool]; exact hn, hnfd⟩
  rw [hpool] at hsome
  simp at hsome

/-- The theorem at a pool that has taken two connections back and handed one out again, for
an endpoint with the same checksum. -/
theorem repOk_two_released :
    ∃ s, Reach (step checksum) (fun s a => distinctFds s a && dropsNothing s a) {} s ∧
      (s.pool.streamList.map (fun n => n.stream.fd) = [6] ∧ s.out = [⟨7, 5⟩]) ∧ RepOk s := by
  obtain ⟨s, hs, hP⟩ : ∃ s, Reach (step checksum)
      (fun s a => distinctFds s a && dropsNothing s a) {} s ∧
      (s.pool.streamList.map (fun n => n.stream.fd) = [6] ∧ s.out = [⟨7, 5⟩]) :=
    Reach.exists_of_exec
      [.op (.release (loopback 31 144) ⟨7, 5⟩ []
          [(loopback 31 144, ⟨0, loopback 31 144, ⟨7, 5⟩⟩)]),
        .op (.release (loopback 40 0) ⟨8, 6⟩ []
          [(loopback 40 0, ⟨1, loopback 40 0, ⟨8, 6⟩⟩),
            (loopback 31 144, ⟨0, loopback 31 144, ⟨7, 5⟩⟩)]),
        .op (.connect (loopback 30 175) [] none)] (by decide +kernel)
  exact ⟨s, hs, hP, repOk_of_reach hs⟩

/-- **A node without an entry**: a connection is released, its descriptor is dropped, and the
pool still holds it, with no entry for its descriptor. -/
theorem drop_orphans_node :
    ∃ s, Reach (step checksum) distinctFds {} s ∧
      s.pool.streamList = [⟨0, loopback 31 144, ⟨7, 5⟩⟩] ∧ s.out = [⟨7, 5⟩] ∧
      s.pool.fd2ep 5 = none ∧ ¬ RepOk s := by
  obtain ⟨s, hs, hlist, hout, hnone⟩ : ∃ s, Reach (step checksum) distinctFds {} s ∧
      s.pool.streamList = [⟨0, loopback 31 144, ⟨7, 5⟩⟩] ∧ s.out = [⟨7, 5⟩] ∧
      s.pool.fd2ep 5 = none :=
    Reach.exists_of_exec
      [.op (.release (loopback 31 144) ⟨7, 5⟩ []
          [(loopback 31 144, ⟨0, loopback 31 144, ⟨7, 5⟩⟩)]),
        .op (.dropFromPool 5)] (by decide +kernel)
  refine ⟨s, hs, hlist, hout, hnone, fun hok => ?_⟩
  have hsome := (hok.fds 5).mpr ⟨by decide, _, by rw [hlist]; exact List.mem_singleton_self _, rfl⟩
  rw [hnone] at hsome
  exact absurd hsome (by simp)

end PoolRun

end ArchNet

import ArchNet.Arq
import ArchNet.KcpWindows
import ArchNet.KcpDatagrams

/-!
# Two Control Blocks over a Network

Two ends of one connection, with a network between them that loses, repeats, reorders and joins the
datagrams that either end has output. Any call may be made at either end at any time. Each direction
of such a link is an automatic repeat request: the steps of the code are matched by steps of the
abstract sender and receiver, which know nothing of windows, timers and wrapping numbers.

The numbers of the segments have 32 bits. A network that may repeat a datagram at any later time
confuses them when they wrap, so the results are about runs in which neither end has numbered half
of them. Nor has a flush of a run gone behind its block (`Link.inBounds`).

* `End` — a control block with its history: the fragments that got a number, the messages taken and
  handed out, and the datagrams output.
* `Link`, `Link.step` — the two ends, and what may happen.
* `TxRel`, `RxRel`, `Truthful` — how an end stands to the abstract sender and receiver, and a
  segment to the packets sent.

## Main results

* `TxRel.filled`, `TxRel.told`, `RxRel.shifts`, `RxRel.arrive`: the small steps of the sides are
  matched.
* `exists_arq`: **every run of a link is matched** by runs of the two directions.
-/

namespace ArchNet.Udp

open Arq (TxRun RxRun Packet)

/-! ### Ends with their histories -/

namespace Kcp

/-- The fragments that leave `snd_queue` at a call. -/
def numbering (k : Kcp) (c : Call) : List Frag :=
  k.outgoing.queue.take (k.outgoing.queue.length - (k.call c).1.outgoing.queue.length)

/-- The messages that a call takes. -/
def taking (k : Kcp) : Call → List (List UInt8)
  | .send buffer len => if (k.send buffer len).1 = 0 then [buffer.take len.toNat] else []
  | _ => []

/-- The segments that a call takes off `rcv_queue`. -/
def handing (k : Kcp) : Call → List Seg
  | .recv len => if 0 ≤ (k.recv len).1 ∧ 0 ≤ len then (takeMessage k.rcvQueue).1 else []
  | _ => []

/-- The messages that a call hands out. -/
def giving (k : Kcp) : Call → List (List UInt8)
  | .recv len => if 0 ≤ (k.recv len).1 ∧ 0 ≤ len then [(k.recv len).2.1] else []
  | _ => []

end Kcp

/-- One end of a link, with its history: the fragments in the order of their numbers, the messages
that `ikcp_send` has taken, the fragments and the messages that `ikcp_recv` has handed out, and the
datagrams that have been output. -/
structure End where
  kcp : Kcp
  log : List Frag := []
  sent : List (List UInt8) := []
  used : List Frag := []
  got : List (List UInt8) := []
  out : List Datagram := []
  deriving DecidableEq

/-- An end after a call. -/
def End.act (e : End) (c : Kcp.Call) : End where
  kcp := (e.kcp.call c).1
  log := e.log ++ e.kcp.numbering c
  sent := e.sent ++ e.kcp.taking c
  used := e.used ++ (e.kcp.handing c).map Seg.frag
  got := e.got ++ e.kcp.giving c
  out := e.out ++ (e.kcp.call c).2

/-! ### The sending side -/

/-- The sending side of an end with the given log stands for the abstract sender. -/
structure TxRel (log : List Frag) (o : Outgoing) (S : Arq.State Frag) : Prop where
  log_eq : S.tx.log = log
  nxt_eq : o.nxt = UInt32.ofNat log.length
  flight : ∀ s ∈ o.flight, log[s.sn.toNat]? = some s.frag
  pending : S.tx.pending = {n | ∃ s ∈ o.flight, s.sn.toNat = n}

namespace TxRel

variable {P : UInt32 → Prop} {log : List Frag} {o o' : Outgoing} {S S' : Arq.State Frag}

/-- The number of a segment in flight has been given out. -/
theorem lt_length (h : TxRel log o S) {s : Seg} (hs : s ∈ o.flight) : s.sn.toNat < log.length :=
  (List.getElem?_eq_some_iff.mp (h.flight s hs)).1

/-- The relation does not look at the packets. -/
theorem congr (h : TxRel log o S) (htx : S'.tx = S.tx) : TxRel log o S' :=
  ⟨htx ▸ h.log_eq, h.nxt_eq, h.flight, htx ▸ h.pending⟩

/-- A fragment gets the number that the abstract sender gives it. -/
theorem number (h : TxRel log o S) (hlog : log.length < 2 ^ 31) (f : Frag) (rest : List Frag) :
    ∃ S', TxRun S S' ∧ S'.net = S.net ∧ TxRel (log ++ [f]) (o.number f rest) S' := by
  have hnat : o.nxt.toNat = log.length := by
    rw [h.nxt_eq, UInt32.toNat_ofNat']
    exact Nat.mod_eq_of_lt (by omega)
  refine ⟨_, .single (.number S f), rfl, ⟨by rw [h.log_eq], ?_, ?_, ?_⟩⟩
  · rw [List.length_append, List.length_singleton, UInt32.ofNat_add, ← h.nxt_eq]
    rfl
  · intro s hs
    rcases List.mem_append.mp hs with hs | hs
    · exact Arq.getElem?_log_append (h.flight s hs)
    · rw [List.mem_singleton.mp hs]
      show (log ++ [f])[o.nxt.toNat]? = some f
      rw [hnat, List.getElem?_append_right (Nat.le_refl _), Nat.sub_self]
      rfl
  · ext n
    simp only [Outgoing.number, h.log_eq, h.pending, Set.mem_insert_iff, Set.mem_ofPred_eq,
      List.mem_append, List.mem_singleton]
    constructor
    · rintro (rfl | ⟨s, hs, rfl⟩)
      · exact ⟨_, .inr rfl, hnat⟩
      · exact ⟨s, .inl hs, rfl⟩
    · rintro ⟨s, hs | rfl, rfl⟩
      · exact .inr ⟨s, hs, rfl⟩
      · exact .inl hnat

/-- **Numbering is matched**: what leaves `snd_queue` goes to the log. -/
theorem filled (h : TxRel log o S) (hs : Outgoing.Filled o o') :
    ∃ moved, o.queue = moved ++ o'.queue ∧ (log.length + moved.length < 2 ^ 31 →
      ∃ S', TxRun S S' ∧ S'.net = S.net ∧ TxRel (log ++ moved) o' S') := by
  induction hs with
  | refl => exact ⟨[], rfl, fun _ => ⟨S, .refl, rfl, by rwa [List.append_nil]⟩⟩
  | tail _ hs ih =>
      obtain ⟨moved, hqueue, ih⟩ := ih
      cases hs with
      | mk f rest cwnd hq _ _ =>
          refine ⟨moved ++ [f], ?_, ?_⟩
          · rw [hqueue, hq, List.append_assoc]
            rfl
          · intro hbound
            rw [List.length_append, List.length_singleton] at hbound
            obtain ⟨S₁, hrun, hnet, hrel⟩ := ih (by omega)
            obtain ⟨S₂, hrun', hnet', hrel'⟩ :=
              hrel.number (by rw [List.length_append]; omega) f rest
            rw [← List.append_assoc]
            exact ⟨S₂, hrun.trans hrun', hnet'.trans hnet, hrel'⟩

/-- A number that is acknowledged in the network is no longer pending. -/
theorem release (h : TxRel log o S) (hok : o.Ok) {pre post : List Seg} {e : Seg}
    (hf : o.flight = pre ++ e :: post)
    (hacked : .ack e.sn.toNat ∈ S.net ∨ ∃ m, e.sn.toNat < m ∧ .una m ∈ S.net) :
    ∃ S', TxRun S S' ∧ S'.net = S.net ∧
      TxRel log { o with flight := pre ++ post, nflight := o.nflight - 1 } S' := by
  have hsub : ∀ s ∈ pre ++ post, s ∈ o.flight := by
    intro s hs
    rw [hf]
    exact (List.Sublist.append_left (List.sublist_cons_self e post) pre).subset hs
  have hne : ∀ s ∈ pre ++ post, s.sn ≠ e.sn := by
    have hsorted := hok.sorted
    rw [hf, List.pairwise_append, List.pairwise_cons] at hsorted
    intro s hs heq
    rcases List.mem_append.mp hs with hs | hs
    · have hlt := hsorted.2.2 s hs e List.mem_cons_self
      rw [heq] at hlt
      exact Nat.lt_irrefl _ hlt
    · have hlt := hsorted.2.1.1 s hs
      rw [heq] at hlt
      exact Nat.lt_irrefl _ hlt
  refine ⟨_, .single (.release S e.sn.toNat hacked), rfl,
    ⟨h.log_eq, h.nxt_eq, fun s hs => h.flight s (hsub s hs), ?_⟩⟩
  ext n
  simp only [h.pending, Set.mem_sdiff, Set.mem_ofPred_eq, Set.mem_singleton_iff]
  constructor
  · rintro ⟨⟨s, hs, rfl⟩, hn⟩
    rw [hf, List.mem_append, List.mem_cons] at hs
    rcases hs with hs | rfl | hs
    · exact ⟨s, List.mem_append_left _ hs, rfl⟩
    · exact absurd rfl hn
    · exact ⟨s, List.mem_append_right _ hs, rfl⟩
  · rintro ⟨s, hs, rfl⟩
    exact ⟨⟨s, hsub s hs, rfl⟩, fun heq => hne s hs (UInt32.toNat_inj.mp heq)⟩

/-- **What the sending side is told is matched**, if the numbers that it releases are acknowledged
in the network. -/
theorem told (h : TxRel log o S) (hok : o.Ok) (hs : Outgoing.Told P o o')
    (hP : ∀ n : UInt32, n.toNat < log.length → P n →
      .ack n.toNat ∈ S.net ∨ ∃ m, n.toNat < m ∧ .una m ∈ S.net) :
    ∃ S', TxRun S S' ∧ S'.net = S.net ∧ TxRel log o' S' := by
  induction hs with
  | refl => exact ⟨S, .refl, rfl, h⟩
  | tail hrun hs ih =>
      obtain ⟨S₁, htx, hnet, hrel⟩ := ih
      cases hs with
      | release pre post e hf hp =>
          have hmem : e ∈ _ := hf ▸ List.mem_append_right pre List.mem_cons_self
          have hacked := hP e.sn (hrel.lt_length hmem) hp
          rw [← hnet] at hacked
          obtain ⟨S₂, htx', hnet', hrel'⟩ := hrel.release (hok.told hrun) hf hacked
          exact ⟨S₂, htx.trans htx', hnet'.trans hnet, hrel'⟩
      | shrink => exact ⟨S₁, htx, hnet, hrel.log_eq, hrel.nxt_eq, hrel.flight, hrel.pending⟩
      | remote wnd hw => exact ⟨S₁, htx, hnet, hrel.log_eq, hrel.nxt_eq, hrel.flight, hrel.pending⟩

/-- What is in flight may be sent. -/
theorem push (h : TxRel log o S) {l : List Seg} (hl : ∀ s ∈ l, s ∈ o.flight) :
    ∃ S', TxRun S S' ∧ S'.tx = S.tx ∧ ∀ s ∈ l, .push s.sn.toNat s.frag ∈ S'.net := by
  induction l with
  | nil => exact ⟨S, .refl, rfl, by rintro s ⟨⟩⟩
  | cons s l ih =>
      obtain ⟨S₁, hrun, htx, hnet⟩ := ih fun t ht => hl t (List.mem_cons_of_mem _ ht)
      have hs := hl s List.mem_cons_self
      have hpending : s.sn.toNat ∈ S₁.tx.pending := by
        rw [htx, h.pending]
        exact ⟨s, hs, rfl⟩
      have hlog : S₁.tx.log[s.sn.toNat]? = some s.frag := by
        rw [htx, h.log_eq]
        exact h.flight s hs
      refine ⟨_, hrun.tail (.push S₁ s.sn.toNat s.frag hpending hlog), htx, ?_⟩
      intro t ht
      rcases List.mem_cons.mp ht with rfl | ht
      · exact Set.mem_insert _ _
      · exact Set.mem_insert_of_mem _ (hnet t ht)

end TxRel

/-! ### The receiving side -/

/-- The receiving side of an end that has handed out the given fragments stands for the abstract
receiver. -/
structure RxRel (used : List Frag) (i : Incoming) (R : Arq.State Frag) : Prop where
  next_eq : R.rx.next = i.nxt.toNat
  stash : R.rx.stash = {p | ∃ s ∈ i.early, (s.sn.toNat, s.frag) = p}
  taken : R.rx.taken = used ++ i.queue.map Seg.frag

namespace RxRel

variable {W : ℕ} {used : List Frag} {i i' : Incoming} {R R' : Arq.State Frag} {s : Seg}

/-- Nor does this one. -/
theorem congr (h : RxRel used i R) (hrx : R'.rx = R.rx) : RxRel used i R' :=
  ⟨hrx ▸ h.next_eq, hrx ▸ h.stash, hrx ▸ h.taken⟩

/-- What came early has been received. -/
theorem received (h : RxRel used i R) {t : Seg} (ht : t ∈ i.early) :
    R.rx.Received t.sn.toNat :=
  .inr ⟨t.frag, h.stash ▸ ⟨t, ht, rfl⟩⟩

/-- The segment in front of `rcv_buf` is the item that is taken next. -/
theorem shift (h : RxRel used i R) (hok : i.Ok W) (hsafe : Arq.Safe R)
    (hbound : R.tx.log.length < 2 ^ 31) (hs : Incoming.Shift i i') :
    ∃ R', RxRun R R' ∧ R'.net = R.net ∧ RxRel used i' R' := by
  cases hs with
  | mk s rest hearly hsn hroom =>
      have hmem : (R.rx.next, s.frag) ∈ R.rx.stash := by
        rw [h.stash, h.next_eq, ← hsn]
        exact ⟨s, hearly ▸ List.mem_cons_self, rfl⟩
      have hlog := (List.getElem?_eq_some_iff.mp (hsafe.stash _ _ hmem).2).1
      have hsorted := hok.sorted
      rw [hearly, List.pairwise_cons] at hsorted
      refine ⟨_, .single (.shift R s.frag hmem), rfl, ⟨?_, ?_, ?_⟩⟩
      · show R.rx.next + 1 = (i.nxt + 1).toNat
        rw [UInt32.toNat_add, UInt32.toNat_one, ← h.next_eq]
        exact (Nat.mod_eq_of_lt (by omega)).symm
      · ext p
        simp only [h.stash, hearly, h.next_eq, ← hsn, Set.mem_sdiff, Set.mem_ofPred_eq,
          Set.mem_singleton_iff, List.mem_cons]
        constructor
        · rintro ⟨⟨t, rfl | ht, rfl⟩, hne⟩
          · exact absurd rfl hne
          · exact ⟨t, ht, rfl⟩
        · rintro ⟨t, ht, rfl⟩
          refine ⟨⟨t, .inr ht, rfl⟩, ?_⟩
          intro heq
          have hlt := hsorted.1 t ht
          rw [UInt32.toNat_inj.mp (congrArg Prod.fst heq)] at hlt
          exact Nat.lt_irrefl _ hlt
      · show R.rx.taken ++ [s.frag] = used ++ (i.queue ++ [s]).map Seg.frag
        rw [h.taken, List.map_append, List.append_assoc]
        rfl

/-- **The moves to `rcv_queue` are matched.** -/
theorem shifts (h : RxRel used i R) (hok : i.Ok W) (hW : W < 2 ^ 31) (hsafe : Arq.Safe R)
    (hbound : R.tx.log.length < 2 ^ 31) (hs : Incoming.Shifts i i') :
    ∃ R', RxRun R R' ∧ R'.net = R.net ∧ RxRel used i' R' := by
  induction hs with
  | refl => exact ⟨R, .refl, rfl, h⟩
  | tail hrun hs ih =>
      obtain ⟨R₁, hrx, hnet, hrel⟩ := ih
      obtain ⟨R₂, hrx', hnet', hrel'⟩ :=
        hrel.shift (hok.shifts hW hrun) (hsafe.rxRun hrx) (by rw [hrx.tx_eq]; exact hbound) hs
      exact ⟨R₂, hrx.trans hrx', hnet'.trans hnet, hrel'⟩

/-- **An arrival is matched**, if the segment was sent. -/
theorem arrive (h : RxRel used i R) (hok : i.Ok W) (hW : W < 2 ^ 31) (hsafe : Arq.Safe R)
    (hbound : R.tx.log.length < 2 ^ 31) (hpush : .push s.sn.toNat s.frag ∈ R.net)
    (hs : Incoming.Arrive s i i') :
    ∃ R', RxRun R R' ∧ R'.net = R.net ∧ RxRel used i' R' ∧ R'.rx.Received s.sn.toNat := by
  cases hs with
  | known hknown =>
      obtain ⟨t, ht, hsn⟩ := hknown
      exact ⟨R, .refl, rfl, h, hsn ▸ h.received ht⟩
  | accept l hl hge hlt =>
      have hnum := (List.getElem?_eq_some_iff.mp (hsafe.push _ _ hpush)).1
      have hnext : R.rx.next ≤ s.sn.toNat := by
        have hle := hsafe.next_le
        rw [h.next_eq] at hle ⊢
        rw [itimediff, Serial.dist_of_lt (by omega) (by omega)] at hge
        omega
      have hnew : ∀ y, (s.sn.toNat, y) ∉ R.rx.stash := by
        rintro y hy
        rw [h.stash] at hy
        obtain ⟨t, ht, heq⟩ := hy
        have hsn := hok.offset_lt hW hge hlt
        have hwnd := hok.wnd_le
        have hsame : t.sn = s.sn := UInt32.toNat_inj.mp (congrArg Prod.fst heq)
        have hnone := (Serial.insertBack_eq_none_iff (hok.agrees (s := s) hW (by omega))
          hok.sorted).mpr ⟨t, ht, by rw [hsame]⟩
        rw [hnone] at hl
        cases hl
      refine ⟨_, .single (.accept R s.sn.toNat s.frag hpush hnext hnew), rfl,
        ⟨h.next_eq, ?_, h.taken⟩, .inr ⟨s.frag, Set.mem_insert _ _⟩⟩
      have hperm := Serial.insertBack_perm hl
      ext p
      simp only [h.stash, Set.mem_insert_iff, Set.mem_ofPred_eq, hperm.mem_iff, List.mem_cons]
      constructor
      · rintro (rfl | ⟨t, ht, rfl⟩)
        · exact ⟨s, .inl rfl, rfl⟩
        · exact ⟨t, .inr ht, rfl⟩
      · rintro ⟨t, rfl | ht, rfl⟩
        · exact .inl rfl
        · exact .inr ⟨t, ht, rfl⟩

/-- What has been received may be acknowledged, and all of it at once. -/
theorem acknowledge (h : RxRel used i R)
    (hacks : ∀ a ∈ i.acks, R.rx.Received a.1.toNat) :
    ∃ R', RxRun R R' ∧ R'.rx = R.rx ∧ .una i.nxt.toNat ∈ R'.net ∧
      ∀ a ∈ i.acks, .ack a.1.toNat ∈ R'.net := by
  have hall : ∀ l : List (UInt32 × UInt32), (∀ a ∈ l, R.rx.Received a.1.toNat) →
      ∃ R', RxRun R R' ∧ R'.rx = R.rx ∧ ∀ a ∈ l, .ack a.1.toNat ∈ R'.net := by
    intro l hl
    induction l with
    | nil => exact ⟨R, .refl, rfl, by rintro a ⟨⟩⟩
    | cons a l ih =>
        obtain ⟨R₁, hrun, hrx, hnet⟩ := ih fun b hb => hl b (List.mem_cons_of_mem _ hb)
        have ha : R₁.rx.Received a.1.toNat := hrx ▸ hl a List.mem_cons_self
        refine ⟨_, hrun.tail (.ack R₁ a.1.toNat ha), hrx, ?_⟩
        intro b hb
        rcases List.mem_cons.mp hb with rfl | hb
        · exact Set.mem_insert _ _
        · exact Set.mem_insert_of_mem _ (hnet b hb)
  obtain ⟨R₁, hrun, hrx, hnet⟩ := hall i.acks hacks
  refine ⟨_, hrun.tail (.una R₁), hrx, ?_, fun a ha => Set.mem_insert_of_mem _ (hnet a ha)⟩
  show Packet.una i.nxt.toNat ∈ insert (Packet.una R₁.rx.next) R₁.net
  rw [hrx, h.next_eq]
  exact Set.mem_insert _ _

end RxRel

/-! ### One end -/

/-- What a segment tells has been sent in the two directions: `S`, in which its end sends, and `R`,
in which it receives. -/
structure Truthful (S R : Arq.State Frag) (s : Seg) : Prop where
  frg : s.frg.toNat < 128
  push : s.cmd = cmdPush → .push s.sn.toNat s.frag ∈ S.net
  una : .una s.una.toNat ∈ R.net
  ack : s.cmd = cmdAck → .ack s.sn.toNat ∈ R.net

/-- What has been sent stays sent. -/
theorem Truthful.mono {S S' R R' : Arq.State Frag} {s : Seg} (h : Truthful S R s)
    (hS : S.net ⊆ S'.net) (hR : R.net ⊆ R'.net) : Truthful S' R' s where
  frg := h.frg
  push hc := hS (h.push hc)
  una := hR h.una
  ack hc := hR (h.ack hc)

/-- An end stands for the sender of `S` and the receiver of `R`. -/
structure EndRel (log used : List Frag) (k : Kcp) (S R : Arq.State Frag) : Prop where
  tx : TxRel log k.outgoing S
  rx : RxRel used k.incoming R
  acks : ∀ a ∈ k.incoming.acks, R.rx.Received a.1.toNat

/-- A state that can be reached, with fewer than half of the numbers given out. -/
structure Sound (S : Arq.State Frag) : Prop where
  safe : Arq.Safe S
  few : S.tx.log.length < 2 ^ 31

/-- The sender keeps a sound state, while it has numbers left. -/
theorem Sound.txRun {S S' : Arq.State Frag} (h : Sound S) (hr : TxRun S S')
    (hlog : S'.tx.log.length < 2 ^ 31) : Sound S' := ⟨h.safe.txRun hr, hlog⟩

/-- The receiver keeps it. -/
theorem Sound.rxRun {R R' : Arq.State Frag} (h : Sound R) (hr : RxRun R R') : Sound R' :=
  ⟨h.safe.rxRun hr, by rw [hr.tx_eq]; exact h.few⟩

namespace EndRel

variable {W B : ℕ} {log used : List Frag} {k : Kcp} {S R : Arq.State Frag}

/-- A segment is the same fragment at the other end. -/
theorem frag_toSeg {s : Seg} (hfrg : s.frg.toNat < 128) :
    (s.header.toSeg s.data).frag = s.frag := by
  have hmod : UInt32.ofNat (s.frg.toNat % 256) = s.frg := by
    rw [Nat.mod_eq_of_lt (by omega), UInt32.ofNat_toNat]
  rw [Seg.frag, Seg.frag, Header.toSeg, Seg.header, hmod]

/-- The numbers that a segment of the other end releases are acknowledged in the network. -/
theorem acked_of_truthful (hS : Sound S) {s : Seg} (hs : Truthful R S s)
    (hvalid : s.header.cmd = s.cmd)
    (n : UInt32) (hn : n.toNat < S.tx.log.length)
    (hP : itimediff s.header.una n > 0 ∨ s.header.cmd = cmdAck ∧ n = s.header.sn) :
    .ack n.toNat ∈ S.net ∨ ∃ m, n.toNat < m ∧ .una m ∈ S.net := by
  have hfew := hS.few
  rcases hP with huna | ⟨hcmd, rfl⟩
  · have hle := hS.safe.una _ hs.una
    have hnext := hS.safe.next_le
    have hlt : itimediff s.header.una n = (s.una.toNat : ℤ) - n.toNat :=
      Serial.dist_of_lt (by show s.una.toNat < 2 ^ 31; omega) (by omega)
    exact .inr ⟨s.una.toNat, by omega, hs.una⟩
  · exact .inl (hs.ack (hvalid ▸ hcmd))

/-- A push is matched: it arrives, or has been received before, or is left out. -/
theorem inputPush (h : RxRel used k.incoming R) (hk : k.incoming.Ok W) (hW : W < 2 ^ 31)
    (hacks : ∀ a ∈ k.incoming.acks, R.rx.Received a.1.toNat) (hR : Sound R) {s : Seg}
    (hfrg : s.frg.toNat < 128) (hpush : .push s.sn.toNat s.frag ∈ R.net) :
    ∃ R', RxRun R R' ∧ R'.net = R.net ∧
      RxRel used (k.inputPush s.header s.data).incoming R' ∧
      ∀ a ∈ (k.inputPush s.header s.data).incoming.acks, R'.rx.Received a.1.toNat := by
  have hfew := hR.few
  have hpushed : ∀ a ∈ k.incoming.acks ++ [(s.header.sn, s.header.ts)],
      a ∈ k.incoming.acks ∨ a.1.toNat = s.sn.toNat := by
    intro a ha
    rcases List.mem_append.mp ha with ha | ha
    · exact .inl ha
    · exact .inr (congrArg (fun b : UInt32 × UInt32 => b.1.toNat) (List.mem_singleton.mp ha))
  obtain heq | ⟨hold, heq⟩ | ⟨hge, hlt, heq⟩ := Kcp.inputPush_cases (k := k) s.header s.data
  · rw [heq]
    exact ⟨R, .refl, rfl, h, hacks⟩
  · have hnum := (List.getElem?_eq_some_iff.mp (hR.safe.push _ _ hpush)).1
    have hreceived : R.rx.Received s.sn.toNat := by
      have hle := hR.safe.next_le
      have hnext : R.rx.next = k.rcvNxt.toNat := h.next_eq
      have hdist : itimediff s.header.sn k.rcvNxt = (s.sn.toNat : ℤ) - k.rcvNxt.toNat :=
        Serial.dist_of_lt (by show s.sn.toNat < 2 ^ 31; omega) (by omega)
      exact .inl (by omega)
    rw [heq]
    refine ⟨R, .refl, rfl, ⟨h.next_eq, h.stash, h.taken⟩, ?_⟩
    intro a ha
    rcases hpushed a ha with ha | ha
    · exact hacks a ha
    · exact ha ▸ hreceived
  · obtain ⟨i, harrive, hshifts⟩ := Kcp.parseData_incoming (k := k.ackPush s.header.sn s.header.ts)
      (s := s.header.toSeg s.data) hge hlt
    have hok : (k.ackPush s.header.sn s.header.ts).incoming.Ok W := hk.withAcks _
    have hrel : RxRel used (k.ackPush s.header.sn s.header.ts).incoming R :=
      ⟨h.next_eq, h.stash, h.taken⟩
    obtain ⟨R₁, hrun₁, hnet₁, hrel₁, hreceived⟩ := hrel.arrive hok hW hR.safe hfew
      (s := s.header.toSeg s.data) (by rw [frag_toSeg hfrg]; exact hpush) harrive
    obtain ⟨R₂, hrun₂, hnet₂, hrel₂⟩ := hrel₁.shifts (hok.arrive hW harrive) hW
      (hR.rxRun hrun₁).safe (hR.rxRun hrun₁).few hshifts
    rw [heq]
    refine ⟨R₂, hrun₁.trans hrun₂, hnet₂.trans hnet₁, hrel₂, ?_⟩
    intro a ha
    rw [hshifts.acks_eq, harrive.acks_eq] at ha
    rcases hpushed a ha with ha | ha
    · exact Arq.RxRun.received (hrun₁.trans hrun₂) (hacks a ha)
    · exact ha ▸ hrun₂.received hreceived

/-- **A segment of the other end is matched.** -/
theorem inputWire {i : Kcp.Input} (h : EndRel log used i.kcp S R) (hk : i.kcp.Windows W)
    (hW : W < 2 ^ 31) (hS : Sound S) (hR : Sound R) {s : Seg} (hs : Truthful R S s)
    (hvalid : s.header.cmd = s.cmd) :
    ∃ S' R', TxRun S S' ∧ S'.net = S.net ∧ RxRun R R' ∧ R'.net = R.net ∧
      EndRel log used (Kcp.inputWire i s).kcp S' R' := by
  obtain ⟨S₁, hrun, hnet, htx⟩ := h.tx.told hk.outgoing
    (Kcp.inputSeg_outgoing i (Kcp.narrow_header s).wnd s.data)
    (fun n hn => acked_of_truthful hS hs hvalid n (h.tx.log_eq ▸ hn))
  have hin := Kcp.inputSeg_incoming i s.header s.data
  by_cases hcmd : s.header.cmd = cmdPush
  · rw [if_pos hcmd] at hin
    have hhead : (i.kcp.inputHead s.header).incoming = i.kcp.incoming := Kcp.inputHead_incoming _
    obtain ⟨R₁, hrun', hnet', hrx, hacks⟩ := inputPush (k := i.kcp.inputHead s.header)
      (hhead ▸ h.rx) (hhead ▸ hk.incoming) hW (hhead ▸ h.acks) hR hs.frg
      (hs.push (hvalid ▸ hcmd))
    rw [← hin] at hrx hacks
    exact ⟨S₁, R₁, hrun, hnet, hrun', hnet', htx, hrx, hacks⟩
  · rw [if_neg hcmd] at hin
    refine ⟨S₁, R, hrun, hnet, .refl, rfl, htx, ?_, ?_⟩
    · rw [Kcp.inputWire, hin]
      exact h.rx
    · rw [Kcp.inputWire, hin]
      exact h.acks

/-- **A datagram of the other end is matched**, segment by segment. -/
theorem foldl_inputWire {segs : List Seg} {i : Kcp.Input} (h : EndRel log used i.kcp S R)
    (hk : i.kcp.Windows W) (hW : W < 2 ^ 31) (hS : Sound S) (hR : Sound R)
    (hsegs : ∀ s ∈ segs, Truthful R S s ∧ s.header.cmd = s.cmd) :
    ∃ S' R', TxRun S S' ∧ S'.net = S.net ∧ RxRun R R' ∧ R'.net = R.net ∧
      EndRel log used (segs.foldl Kcp.inputWire i).kcp S' R' := by
  induction segs generalizing i S R with
  | nil => exact ⟨S, R, .refl, rfl, .refl, rfl, h⟩
  | cons s segs ih =>
      obtain ⟨hs, hvalid⟩ := hsegs s List.mem_cons_self
      obtain ⟨S₁, R₁, htx, hSnet, hrx, hRnet, hrel⟩ := h.inputWire hk hW hS hR hs hvalid
      have hS₁ : Sound S₁ := hS.txRun htx (by rw [hrel.tx.log_eq, ← h.tx.log_eq]; exact hS.few)
      obtain ⟨S₂, R₂, htx', hSnet', hrx', hRnet', hrel'⟩ := ih hrel
        (hk.inputSeg hW (Kcp.narrow_header s) s.data) hS₁ (hR.rxRun hrx) fun t ht =>
          ⟨(hsegs t (List.mem_cons_of_mem _ ht)).1.mono hRnet.ge hSnet.ge,
            (hsegs t (List.mem_cons_of_mem _ ht)).2⟩
      exact ⟨S₂, R₂, htx.trans htx', hSnet'.trans hSnet, hrx.trans hrx', hRnet'.trans hRnet, hrel'⟩

/-- The relation is one of the two sides. -/
theorem congr {k' : Kcp} (h : EndRel log used k S R) (hout : k'.outgoing = k.outgoing)
    (hin : k'.incoming = k.incoming) : EndRel log used k' S R :=
  ⟨hout ▸ h.tx, hin ▸ h.rx, hin ▸ h.acks⟩

/-- A datagram is matched segment by segment. -/
theorem inputSegs {segs : List Seg} (h : EndRel log used k S R) (hk : k.Windows W)
    (hW : W < 2 ^ 31) (hS : Sound S) (hR : Sound R)
    (hsegs : ∀ s ∈ segs, Truthful R S s ∧ s.header.cmd = s.cmd) :
    ∃ S' R', TxRun S S' ∧ S'.net = S.net ∧ RxRun R R' ∧ R'.net = R.net ∧
      EndRel log used (k.inputSegs segs) S' R' := by
  obtain ⟨S', R', htx, hSnet, hrx, hRnet, hrel⟩ :=
    foldl_inputWire (i := { kcp := k }) h hk hW hS hR hsegs
  refine ⟨S', R', htx, hSnet, hrx, hRnet, hrel.congr ?_ ?_⟩
  · rw [Kcp.inputSegs, Kcp.growCwnd_outgoing]
    split
    · exact Kcp.parseFastack_outgoing _
    · rfl
  · rw [Kcp.inputSegs, Kcp.growCwnd_incoming]
    split
    · exact Kcp.parseFastack_incoming _
    · rfl

/-- **A flush is matched**: what it numbers, and what it sends. -/
theorem flush (h : EndRel log used k S R) (hupdated : k.updated ≠ 0)
    (hbounded : k.outgoing.Bounded B) :
    ∃ moved, k.outgoing.queue = moved ++ k.flush.1.outgoing.queue ∧
      (log.length + moved.length < 2 ^ 31 → ∃ S' R', TxRun S S' ∧ RxRun R R' ∧
        EndRel (log ++ moved) used k.flush.1 S' R' ∧
        ∀ s ∈ k.flushSegs, Truthful S' R' s) := by
  obtain ⟨moved, hqueue, hfilled⟩ := h.tx.filled (Kcp.flush_outgoing (k := k))
  refine ⟨moved, hqueue, fun hlog => ?_⟩
  obtain ⟨S₁, hrun₁, -, hrel₁⟩ := hfilled hlog
  obtain ⟨S₂, hrun₂, htx₂, hpush⟩ := hrel₁.push (l := k.flush.1.outgoing.flight) fun s hs => hs
  obtain ⟨R₁, hrun, hrx, huna, hack⟩ := h.rx.acknowledge h.acks
  have hin := Kcp.flush_incoming (k := k)
  rw [if_neg hupdated] at hin
  refine ⟨S₂, R₁, hrun₁.trans hrun₂, hrun, ⟨hrel₁.congr htx₂, ?_, ?_⟩, ?_⟩
  · rw [hin]
    exact ⟨hrx ▸ h.rx.next_eq, hrx ▸ h.rx.stash, hrx ▸ h.rx.taken⟩
  · rw [hin]
    rintro a ⟨⟩
  · intro s hs
    obtain ⟨hsuna, ⟨-, hfrg, -, hcmd⟩ | hflight⟩ := Kcp.of_mem_flushSegs hs
    · refine ⟨by rw [hfrg]; decide, ?_, by rw [hsuna]; exact huna, ?_⟩
      · intro hc
        rcases hcmd with ⟨hack', -⟩ | hask | htell
        · exact absurd (hack'.symm.trans hc) (by decide)
        · exact absurd (hask.symm.trans hc) (by decide)
        · exact absurd (htell.symm.trans hc) (by decide)
      · intro hc
        rcases hcmd with ⟨-, hmem⟩ | hask | htell
        · exact hack _ hmem
        · exact absurd (hask.symm.trans hc) (by decide)
        · exact absurd (htell.symm.trans hc) (by decide)
    · obtain ⟨-, hcmd, hfrg, -⟩ := (hbounded.filled Kcp.filled_outgoing).flight _ hflight
      rw [← Kcp.flush_outgoing_eq hupdated] at hflight
      refine ⟨hfrg, fun _ => hpush s.core hflight, by rw [hsuna]; exact huna, ?_⟩
      intro hc
      exact absurd (hcmd.symm.trans hc) (by decide)

/-- What is taken off `rcv_queue` is handed out. -/
theorem dropMessage (h : RxRel used k.incoming R) {len : ℤ} (hret : 0 ≤ (k.recv len).1) :
    RxRel (used ++ (k.handing (.recv len)).map Seg.frag) (k.dropMessage len).incoming R := by
  rw [Kcp.handing, Kcp.dropMessage]
  by_cases hlen : len < 0
  · rw [if_neg (by omega), if_pos hlen, List.map_nil, List.append_nil]
    exact h
  · rw [if_pos ⟨hret, by omega⟩, if_neg hlen]
    refine ⟨h.next_eq, h.stash, ?_⟩
    have htaken : R.rx.taken = used ++ k.rcvQueue.map Seg.frag := h.taken
    show R.rx.taken = used ++ (Kcp.takeMessage k.rcvQueue).1.map Seg.frag ++
      (Kcp.takeMessage k.rcvQueue).2.map Seg.frag
    rw [htaken, List.append_assoc, ← List.map_append, Kcp.takeMessage_append]

/-- A message that is handed out is matched. -/
theorem recv (h : EndRel log used k S R) (hk : k.Windows W) (hW : W < 2 ^ 31) (hR : Sound R)
    (len : ℤ) :
    ∃ R', RxRun R R' ∧
      EndRel log (used ++ (k.handing (.recv len)).map Seg.frag) (k.recv len).2.2 S R' := by
  have hout := Kcp.recv_outgoing (k := k) len
  obtain ⟨hneg, heq⟩ | ⟨-, -, -, hret, -, hshifts⟩ := Kcp.recv_cases (k := k) len
  · rw [Kcp.handing, if_neg (by omega), List.map_nil, List.append_nil, heq]
    exact ⟨R, .refl, h⟩
  · have hpos : 0 ≤ (k.recv len).1 := hret ▸ Int.natCast_nonneg _
    have hdrop := dropMessage h.rx hpos
    obtain ⟨R', hrun, -, hrx⟩ :=
      hdrop.shifts (hk.dropMessage len).incoming hW hR.safe hR.few hshifts
    refine ⟨R', hrun, hout ▸ h.tx, hrx, ?_⟩
    have hacks : (k.dropMessage len).incoming.acks = k.incoming.acks := by
      unfold Kcp.dropMessage
      split <;> rfl
    rw [hshifts.acks_eq, hacks]
    exact fun a ha => hrun.received (h.acks a ha)

/-- The fragments that a call numbers. -/
theorem filling {c : Kcp.Call} {f : Kcp} (h : EndRel log used k S R) (hf : k.flushing c = some f)
    (hbounded : k.outgoing.Bounded B) {moved : List Frag}
    (hmoved : k.outgoing.queue = moved ++ (k.call c).1.outgoing.queue)
    (hlog : log.length + moved.length < 2 ^ 31) :
    ∃ S' R', TxRun S S' ∧ RxRun R R' ∧ EndRel (log ++ moved) used (k.call c).1 S' R' ∧
      ∀ s ∈ f.flushSegs, Truthful S' R' s := by
  obtain ⟨hupdated, hout, hin, hcall⟩ := Kcp.of_flushing hf
  obtain ⟨moved', hqueue, hmatch⟩ := (h.congr hout hin).flush hupdated (hout ▸ hbounded)
  rw [hcall, ← hout] at hmoved
  obtain rfl : moved' = moved := List.append_cancel_right (hqueue.symm.trans hmoved)
  rw [hcall]
  exact hmatch hlog

end EndRel

/-! ### Links -/

/-- The two ends of a link. -/
inductive Side
  | client | server
  deriving DecidableEq, Repr

/-- The other end. -/
def Side.other : Side → Side
  | .client => .server
  | .server => .client

/-- There are two ends. -/
@[simp] theorem Side.other_other (s : Side) : s.other.other = s := by
  cases s <;> rfl

/-- What holds of an end and of the other one holds of both. -/
theorem Side.forall {P : Side → Prop} (s : Side) (hs : P s) (hother : P s.other) (t : Side) :
    P t := by
  cases s <;> cases t <;> assumption

/-- A link. -/
abbrev Link := Side → End

/-! ### A call at one end -/

/-- What holds of an end at any time. -/
structure End.Ok (conv : UInt32) (e : End) : Prop where
  windows : e.kcp.Windows (2 ^ 31 - 1)
  bounded : e.kcp.outgoing.Bounded (2 ^ 31 - 25)
  conv_eq : e.kcp.conv = conv
  stream_eq : e.kcp.stream = 0

/-- It holds of a new block. -/
theorem End.ok_start {conv : UInt32} : End.Ok conv { kcp := Kcp.create conv } where
  windows := Kcp.windows_create conv (by omega)
  bounded := (Kcp.bounded_create conv).mono (by omega)
  conv_eq := rfl
  stream_eq := rfl

/-- Every call keeps it. -/
theorem End.Ok.act {conv : UInt32} {e : End} (h : e.Ok conv) (c : Kcp.Call) :
    (e.act c).Ok conv where
  windows := h.windows.call (by omega) (by omega) c.withinWindow
  bounded := Kcp.bounded_call h.bounded (by omega) c.withinMtu
  conv_eq := (Kcp.call_conv c).1.trans h.conv_eq
  stream_eq := (Kcp.call_conv c).2.trans h.stream_eq

namespace Kcp

variable {k : Kcp} {c : Call}

/-- A call that leaves `snd_queue` as long as it was numbers nothing. -/
theorem numbering_eq_nil (h : k.outgoing.queue.length ≤ (k.call c).1.outgoing.queue.length) :
    k.numbering c = [] := by
  rw [numbering, Nat.sub_eq_zero_of_le h, List.take_zero]

/-- What leaves `snd_queue` in front is numbered. -/
theorem numbering_of_append {moved : List Frag}
    (h : k.outgoing.queue = moved ++ (k.call c).1.outgoing.queue) : k.numbering c = moved := by
  have hlen := congrArg List.length h
  rw [List.length_append] at hlen
  have hsub : k.outgoing.queue.length - (k.call c).1.outgoing.queue.length = moved.length := by
    omega
  rw [numbering, hsub, h, List.take_left' rfl]

/-- The block after a call of `ikcp_input`. -/
theorem call_input (data : List UInt8) : (k.call (.input data)).1 = (k.input data).2 := rfl

/-- Nothing that comes in leaves or enters `snd_queue`. -/
theorem input_queue (data : List UInt8) :
    (k.input data).2.outgoing.queue = k.outgoing.queue := by
  refine input_invariant (I := fun k' => k'.outgoing.queue = k.outgoing.queue) ?_ ?_ ?_ rfl data
  · intro i h data hi hn
    exact (inputSeg_outgoing i hn.wnd data).queue_eq.trans hi
  · intro k' sn hk'
    rwa [parseFastack_outgoing]
  · intro k' una hk'
    rwa [growCwnd_outgoing]

/-- An update that flushes nothing sets the clock. -/
theorem update_of_flushing_eq_none {current : UInt32} (hf : k.flushing (.update current) = none) :
    ∃ updated tsFlush, k.update current =
      ({ k with current := current, updated := updated, tsFlush := tsFlush }, []) := by
  obtain ⟨u, t, -, hclock⟩ := setClock_eq (k := k) current
  unfold flushing at hf
  unfold update
  dsimp only at hf ⊢
  rw [hclock] at hf ⊢
  split at hf
  · cases hf
  · next hdue => exact ⟨u, t, if_neg hdue⟩

/-- Before the first update a flush does nothing. -/
theorem flush_of_flushing_eq_none (hf : k.flushing .flush = none) : k.flush = (k, []) := by
  unfold flushing at hf
  dsimp only at hf
  split at hf
  · next hupdated => rw [flush, if_pos hupdated]
  · cases hf

end Kcp

/-- What is told at an end is matched in its two directions, and so is what it outputs. -/
def EndRel.Matched (conv : UInt32) (e : End) (c : Kcp.Call) (S R : Arq.State Frag) : Prop :=
  ∃ S' R', TxRun S S' ∧ RxRun R R' ∧ EndRel (e.act c).log (e.act c).used (e.act c).kcp S' R' ∧
    ∀ d ∈ (e.kcp.call c).2, ∃ segs, d = join segs ∧ ∀ t ∈ segs, Truthful S' R' t ∧ t.Valid conv

namespace EndRel

variable {conv : UInt32} {e : End} {c : Kcp.Call} {S R : Arq.State Frag}

/-- A call that outputs nothing, numbers nothing and hands out nothing. -/
theorem Matched.of_quiet (hout : (e.kcp.call c).2 = [])
    (hqueue : e.kcp.outgoing.queue.length ≤ (e.kcp.call c).1.outgoing.queue.length)
    (hhand : e.kcp.handing c = []) {S' R' : Arq.State Frag} (hS : TxRun S S') (hR : RxRun R R')
    (h : EndRel e.log e.used (e.kcp.call c).1 S' R') : Matched conv e c S R := by
  refine ⟨S', R', hS, hR, ?_, ?_⟩
  · rw [End.act, Kcp.numbering_eq_nil hqueue, hhand, List.map_nil, List.append_nil, List.append_nil]
    exact h
  · rw [hout]
    rintro d ⟨⟩

/-- A call that flushes. -/
theorem Matched.of_flushing {B : ℕ} (h : EndRel e.log e.used e.kcp S R) (hB : B < 2 ^ 31)
    (hbounded : e.kcp.outgoing.Bounded B) (hhand : e.kcp.handing c = [])
    {f : Kcp} (hf : e.kcp.flushing c = some f) (hlog : (e.act c).log.length < 2 ^ 31) :
    Matched e.kcp.conv e c S R := by
  obtain ⟨hupdated, hout, hin, hcall⟩ := Kcp.of_flushing hf
  obtain ⟨moved, hqueue, -⟩ := (h.tx.congr rfl).filled (hout ▸ Kcp.flush_outgoing (k := f))
  rw [← hcall] at hqueue
  have hnumber := Kcp.numbering_of_append hqueue
  rw [End.act, hnumber, List.length_append] at hlog
  obtain ⟨S', R', hS, hR, hrel, htruth⟩ := h.filling hf hbounded hqueue hlog
  obtain ⟨groups, -, hgroups, hflat⟩ := Kcp.flush_packs hupdated
  refine ⟨S', R', hS, hR, ?_, ?_⟩
  · rw [End.act, hnumber, hhand, List.map_nil, List.append_nil]
    exact hrel
  · rw [hcall, hgroups]
    intro d hd
    obtain ⟨g, hg, rfl⟩ := List.mem_map.mp hd
    refine ⟨g, rfl, fun t ht => ?_⟩
    have hmem : t ∈ f.flushSegs := hflat ▸ List.mem_flatten.mpr ⟨g, hg, ht⟩
    have hconv : f.conv = e.kcp.conv := congrArg Outgoing.conv hout
    exact ⟨htruth t hmem, hconv ▸ Kcp.valid_of_mem_flushSegs (hout ▸ hbounded) hB hmem⟩

/-- **Every call is matched**, if what it is given comes from the other end. -/
theorem call {W B : ℕ} (h : EndRel e.log e.used e.kcp S R) (hk : e.kcp.Windows W) (hW : W < 2 ^ 31)
    (hbounded : e.kcp.outgoing.Bounded B) (hB : B < 2 ^ 31) (hS : Sound S) (hR : Sound R)
    (hin : ∀ data, c = .input data →
      ∃ segs, data = join segs ∧ ∀ t ∈ segs, Truthful R S t ∧ t.Valid e.kcp.conv)
    (hlog : (e.act c).log.length < 2 ^ 31) : Matched e.kcp.conv e c S R := by
  cases c with
  | recv len =>
      obtain ⟨R', hrun, hrel⟩ := h.recv hk hW hR len
      have hqueue : (e.kcp.call (.recv len)).1.outgoing = e.kcp.outgoing := Kcp.recv_outgoing len
      have hnone : e.kcp.numbering (.recv len) = [] :=
        Kcp.numbering_eq_nil (by rw [hqueue])
      refine ⟨S, R', .refl, hrun, ?_, by rintro d ⟨⟩⟩
      rw [End.act, hnone, List.append_nil]
      exact hrel
  | send buffer len =>
      obtain ⟨l, n, heq, hlen⟩ := Kcp.send_eq (k := e.kcp) buffer len
      refine .of_quiet rfl ?_ rfl .refl .refl ?_
      · rw [Kcp.call, heq]
        show (e.kcp.sndQueue.map Seg.frag).length ≤ (l.map Seg.frag).length
        rw [List.length_map, List.length_map]
        omega
      · rw [Kcp.call, heq]
        exact ⟨⟨h.tx.log_eq, h.tx.nxt_eq, h.tx.flight, h.tx.pending⟩, h.rx, h.acks⟩
  | input data =>
      obtain ⟨segs, rfl, hsegs⟩ := hin data rfl
      have hqueue : e.kcp.outgoing.queue.length ≤
          (e.kcp.call (.input (join segs))).1.outgoing.queue.length :=
        (congrArg List.length (Kcp.input_queue (k := e.kcp) (join segs))).ge
      cases segs with
      | nil => exact .of_quiet rfl hqueue rfl .refl .refl h
      | cons s segs =>
          have hjoin := Kcp.input_join (List.cons_ne_nil s segs) fun t ht => (hsegs t ht).2
          obtain ⟨S', R', hrun, -, hrun', -, hrel⟩ := h.inputSegs hk hW hS hR fun t ht =>
            ⟨(hsegs t ht).1, (hsegs t ht).2.header_cmd⟩
          refine .of_quiet rfl hqueue rfl hrun hrun' ?_
          rw [Kcp.call_input, hjoin]
          dsimp only
          exact hrel
  | update current =>
      cases hf : e.kcp.flushing (.update current) with
      | some f => exact .of_flushing h hB hbounded rfl hf hlog
      | none =>
          obtain ⟨u, t, heq⟩ := Kcp.update_of_flushing_eq_none hf
          refine .of_quiet (Kcp.call_of_flushing_eq_none hf) ?_ rfl .refl .refl ?_
          · rw [Kcp.call, heq]
            exact Nat.le_refl _
          · rw [Kcp.call, heq]
            exact h.congr rfl rfl
  | flush =>
      cases hf : e.kcp.flushing .flush with
      | some f => exact .of_flushing h hB hbounded rfl hf hlog
      | none =>
          have heq := Kcp.flush_of_flushing_eq_none hf
          refine .of_quiet (Kcp.call_of_flushing_eq_none hf) ?_ rfl .refl .refl ?_
          · rw [Kcp.call, heq]
          · rw [Kcp.call, heq]
            exact h
  | setmtu mtu =>
      obtain ⟨a, b, heq⟩ := Kcp.setmtu_eq (k := e.kcp) mtu
      refine .of_quiet rfl (by rw [Kcp.call, heq]; exact Nat.le_refl _) rfl .refl .refl ?_
      rw [Kcp.call, heq]
      exact ⟨⟨h.tx.log_eq, h.tx.nxt_eq, h.tx.flight, h.tx.pending⟩, h.rx, h.acks⟩
  | interval n => exact .of_quiet rfl (Nat.le_refl _) rfl .refl .refl (h.congr rfl rfl)
  | nodelay a b c d =>
      obtain ⟨_, _, _, _, _, heq⟩ := Kcp.setNodelay_eq (k := e.kcp) a b c d
      refine .of_quiet rfl (by rw [Kcp.call, heq]; exact Nat.le_refl _) rfl .refl .refl ?_
      rw [Kcp.call, heq]
      exact h.congr rfl rfl
  | wndsize sndwnd rcvwnd =>
      obtain ⟨a, heq⟩ := Kcp.wndsize_eq (k := e.kcp) sndwnd rcvwnd
      refine .of_quiet rfl (by rw [Kcp.call, heq]; exact Nat.le_refl _) rfl .refl .refl ?_
      rw [Kcp.call, heq]
      exact ⟨h.tx, ⟨h.rx.next_eq, h.rx.stash, h.rx.taken⟩, h.acks⟩

end EndRel

namespace Link

/-- What happens at a link: a call at one end, or some of the datagrams that the other end has
output come in there, joined in any order. -/
inductive Action
  | call (s : Side) (c : Kcp.Call)
  | deliver (s : Side) (datagrams : List Datagram)
  deriving DecidableEq, Repr

/-- Two new blocks of one connection. -/
def start (conv : UInt32) : Link := fun _ => { kcp := Kcp.create conv }

/-- A call at one end. -/
def act (l : Link) (s : Side) (c : Kcp.Call) : Link := fun t => if t = s then (l s).act c else l t

/-- A step of a link. -/
def step (l : Link) : Action → Option Link
  | .call _ (.input _) => none
  | .call s c => some (l.act s c)
  | .deliver s datagrams =>
      if datagrams.all (l s.other).out.contains then some (l.act s (.input datagrams.flatten))
      else none

/-- A step goes behind no block of a flush. What comes in is not answered before the next flush. -/
def inBounds (l : Link) : Action → Bool
  | .call s c => (l s).kcp.inBounds c
  | .deliver _ _ => true

/-- A link stands for the automatic repeat requests `S client` and `S server` of its two
directions, and its datagrams for the packets sent in them. -/
structure Rel (conv : UInt32) (l : Link) (S : Side → Arq.State Frag) : Prop where
  reachable : ∀ s, Arq.Reachable (S s)
  rel : ∀ s, EndRel (l s).log (l s).used (l s).kcp (S s) (S s.other)
  out : ∀ s, ∀ d ∈ (l s).out, ∃ segs, d = join segs ∧
    ∀ t ∈ segs, Truthful (S s) (S s.other) t ∧ t.Valid conv

variable {conv : UInt32} {l : Link} {S : Side → Arq.State Frag}

/-- The directions of a link are sound, while they have numbers left. -/
theorem Rel.sound (h : Rel conv l S) {s : Side} (hfew : (l s).log.length < 2 ^ 31) : Sound (S s) :=
  ⟨Arq.safe_of_reachable (h.reachable s), by rw [(h.rel s).tx.log_eq]; exact hfew⟩

/-- New blocks stand for requests at their start. -/
theorem rel_start : Rel conv (start conv) fun _ => .start where
  reachable _ := .refl
  rel _ := by
    refine ⟨⟨rfl, rfl, by rintro s ⟨⟩, ?_⟩, ⟨rfl, ?_, rfl⟩, by rintro a ⟨⟩⟩
    · ext n
      refine ⟨fun hn => hn.elim, ?_⟩
      rintro ⟨s, hs, -⟩
      cases hs
    · ext p
      refine ⟨fun hp => hp.elim, ?_⟩
      rintro ⟨s, hs, -⟩
      cases hs
  out _ := by rintro d ⟨⟩

/-- The end that is called. -/
theorem act_self (s : Side) (c : Kcp.Call) : l.act s c s = (l s).act c := if_pos rfl

/-- The other end stays as it is. -/
theorem act_other (s : Side) (c : Kcp.Call) : l.act s c s.other = l s.other :=
  if_neg (by cases s <;> decide)

/-- **A call at one end is matched in both directions.** -/
theorem Rel.act (h : Rel conv l S) (hok : ∀ s, (l s).Ok conv)
    (hfew : ∀ s, (l s).log.length < 2 ^ 31) {s : Side} {c : Kcp.Call}
    (hin : ∀ data, c = .input data → ∃ segs, data = join segs ∧
      ∀ t ∈ segs, Truthful (S s.other) (S s) t ∧ t.Valid conv)
    (hlog : ((l s).act c).log.length < 2 ^ 31) : ∃ S', Rel conv (l.act s c) S' := by
  obtain ⟨hwindows, hbounded, rfl, -⟩ := hok s
  obtain ⟨S₁, R₁, htx, hrx, hrel, hout⟩ := (h.rel s).call hwindows (by omega) hbounded (by omega)
    (h.sound (hfew s)) (h.sound (hfew s.other)) hin hlog
  obtain ⟨S', hself, hother⟩ : ∃ S' : Side → Arq.State Frag, S' s = S₁ ∧ S' s.other = R₁ :=
    ⟨fun t => if t = s then S₁ else R₁, if_pos rfl, if_neg (by cases s <;> decide)⟩
  refine ⟨S', ⟨s.forall ?_ ?_, s.forall ?_ ?_, s.forall ?_ ?_⟩⟩
  · rw [hself]
    exact (h.reachable s).tx htx
  · rw [hother]
    exact (h.reachable s.other).rx hrx
  · rw [act_self, hself, hother]
    exact hrel
  · -- the other end has done nothing
    have hrel' := h.rel s.other
    rw [Side.other_other] at hrel'
    rw [act_other, Side.other_other, hself, hother]
    refine ⟨hrel'.tx.congr hrx.tx_eq, hrel'.rx.congr htx.rx_eq, ?_⟩
    rw [htx.rx_eq]
    exact hrel'.acks
  · rw [act_self, hself, hother]
    intro d hd
    rcases List.mem_append.mp hd with hd | hd
    · obtain ⟨segs, hjoin, hsegs⟩ := h.out s d hd
      exact ⟨segs, hjoin, fun t ht =>
        ⟨(hsegs t ht).1.mono htx.net_subset hrx.net_subset, (hsegs t ht).2⟩⟩
    · exact hout d hd
  · rw [act_other, Side.other_other, hself, hother]
    intro d hd
    obtain ⟨segs, hjoin, hsegs⟩ := h.out s.other d hd
    rw [Side.other_other] at hsegs
    exact ⟨segs, hjoin, fun t ht =>
      ⟨(hsegs t ht).1.mono hrx.net_subset htx.net_subset, (hsegs t ht).2⟩⟩

/-- What has been output is the bytes of segments, and so is what comes in. -/
theorem Rel.flatten (h : Rel conv l S) {s : Side} {datagrams : List Datagram}
    (hout : ∀ d ∈ datagrams, d ∈ (l s).out) :
    ∃ segs, datagrams.flatten = join segs ∧
      ∀ t ∈ segs, Truthful (S s) (S s.other) t ∧ t.Valid conv := by
  induction datagrams with
  | nil => exact ⟨[], rfl, by rintro t ⟨⟩⟩
  | cons d datagrams ih =>
      obtain ⟨segs, rfl, hsegs⟩ := h.out s d (hout d List.mem_cons_self)
      obtain ⟨rest, hrest, hall⟩ := ih fun e he => hout e (List.mem_cons_of_mem _ he)
      refine ⟨segs ++ rest, by rw [List.flatten_cons, hrest, join_append], ?_⟩
      intro t ht
      rcases List.mem_append.mp ht with ht | ht
      · exact hsegs t ht
      · exact hall t ht

/-- A step is a call at one end, and what an `ikcp_input` is given comes from the other end. -/
theorem step_cases {l' : Link} {a : Action} (h : l.step a = some l') :
    ∃ s c, l' = l.act s c ∧ ∀ data, c = .input data →
      ∃ datagrams : List Datagram, data = datagrams.flatten ∧
        ∀ d ∈ datagrams, d ∈ (l s.other).out := by
  cases a with
  | call s c =>
      cases c with
      | input data => cases h
      | _ => exact ⟨s, _, (Option.some.inj h).symm, by rintro data ⟨⟩⟩
  | deliver s datagrams =>
      rw [step] at h
      split at h
      · next hout =>
          refine ⟨s, _, (Option.some.inj h).symm, ?_⟩
          intro data hdata
          refine ⟨datagrams, (Kcp.Call.input.inj hdata).symm, fun d hd => ?_⟩
          exact List.contains_iff_mem.mp (List.all_eq_true.mp hout d hd)
      · cases h

/-- A call makes the log no shorter. -/
theorem length_log_le (s : Side) (c : Kcp.Call) (t : Side) :
    (l t).log.length ≤ (l.act s c t).log.length := by
  refine s.forall (P := fun t => (l t).log.length ≤ (l.act s c t).log.length) ?_ ?_ t
  · rw [act_self, End.act, List.length_append]
    exact Nat.le_add_right _ _
  · rw [act_other]

/-- Both ends are in order in every state reached. -/
theorem ok_of_reach (h : Lts.Reach step inBounds (start conv) l) (s : Side) : (l s).Ok conv := by
  refine h.invariant (fun l => ∀ s, (l s).Ok conv) (fun _ => End.ok_start) ?_ s
  intro l l' a hl _ hstep
  obtain ⟨s, c, rfl, -⟩ := step_cases hstep
  refine s.forall ?_ ?_
  · rw [act_self]
    exact (hl s).act c
  · rw [act_other]
    exact hl s.other

/-- A step makes no log shorter. -/
theorem log_le_of_step {l' : Link} {a : Action} (h : l.step a = some l') (t : Side) :
    (l t).log.length ≤ (l' t).log.length := by
  obtain ⟨s, c, rfl, -⟩ := step_cases h
  exact length_log_le s c t

/-- **A step is matched.** -/
theorem Rel.of_step (h : Rel conv l S) (hok : ∀ s, (l s).Ok conv) {l' : Link} {a : Action}
    (hstep : l.step a = some l') (hfew : ∀ s, (l' s).log.length < 2 ^ 31) :
    ∃ S', Rel conv l' S' := by
  have hbefore := fun t => Nat.lt_of_le_of_lt (log_le_of_step hstep t) (hfew t)
  obtain ⟨s, c, rfl, hin⟩ := step_cases hstep
  have hlog := hfew s
  rw [act_self] at hlog
  refine h.act hok hbefore ?_ hlog
  intro data hdata
  obtain ⟨datagrams, rfl, hout⟩ := hin data hdata
  obtain ⟨segs, hjoin, hsegs⟩ := h.flatten hout
  rw [Side.other_other] at hsegs
  exact ⟨segs, hjoin, hsegs⟩

/-- **Every run of a link is matched.** Whatever the network does with the datagrams, and whenever
the ends are called, each direction is an automatic repeat request, as long as neither end has given
out half of the numbers. -/
theorem exists_arq (h : Lts.Reach step inBounds (start conv) l)
    (hfew : ∀ s, (l s).log.length < 2 ^ 31) : ∃ S, Rel conv l S := by
  induction h with
  | refl => exact ⟨_, rel_start⟩
  | tail hreach _ hstep ih =>
      obtain ⟨S, hrel⟩ := ih fun t => Nat.lt_of_le_of_lt (log_le_of_step hstep t) (hfew t)
      exact hrel.of_step (ok_of_reach hreach) hstep hfew

/-- A message, its acknowledgement lost. -/
theorem exists_arq_delivered : ∃ l, (l .server).got = [[1, 2, 3]] ∧ ∃ S, Rel 7 l S := by
  have hrun : ∃ l, Lts.Reach step inBounds (start 7) l ∧ (l .server).got = [[1, 2, 3]] ∧
      (l .client).log.length = 1 ∧ (l .server).log.length = 0 :=
    Lts.Reach.exists_of_exec
      [.call .client (.send [1, 2, 3] 3), .call .client (.update 0), .call .client (.update 100),
        .deliver .server [[7, 0, 0, 0, 81, 0, 128, 0, 100, 0, 0, 0, 0, 0, 0, 0, 0, 0, 0, 0,
          3, 0, 0, 0, 1, 2, 3]],
        .call .server (.recv 10), .call .server (.update 0)] (by decide +kernel)
  obtain ⟨l, hreach, hgot, hclient, hserver⟩ := hrun
  refine ⟨l, hgot, exists_arq hreach fun s => ?_⟩
  cases s <;> omega

end Link

end ArchNet.Udp

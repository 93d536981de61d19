import ArchNet.KcpLink
import Mathlib.Data.List.Forall2
import Mathlib.Data.List.Infix
import Mathlib.Data.List.Flatten

/-!
# Messages across a Link

The fragments of a message count down to zero, and nothing else marks where a message ends. As the
fragments of a direction come in the order of their numbers, the receiving end can put the messages
together again by this count alone.

* `IsFrame` — the fragments of a message.
* `Transfer` — what one end has been given, and what the other has handed out of it.

## Main results

* `isFrame_fragment`, `takeMessage_frame`: a message is cut into a frame, and a frame is taken as a
  message.
* `got_prefix_sent`: **the messages handed out are those taken at the other end**, in order, each
  once and whole.
* `recv_next`: a receive window that is full always holds a whole message.
* `flight_or_received`, `sent_flatten`: nothing is lost on the way.
-/

namespace ArchNet.Udp

/-! ### Frames -/

/-- The fragments of a message, each of which counts those behind it. -/
inductive IsFrame : List UInt8 → List Frag → Prop
  | last (f : Frag) : f.frg = 0 → IsFrame f.data [f]
  | cons (f : Frag) {m : List UInt8} {rest : List Frag} :
      IsFrame m rest → f.frg.toNat = rest.length → IsFrame (f.data ++ m) (f :: rest)

namespace IsFrame

variable {m : List UInt8} {g : List Frag}

/-- A message has a fragment, even without bytes. -/
theorem ne_nil (h : IsFrame m g) : g ≠ [] := by
  cases h <;> exact List.cons_ne_nil _ _

/-- The fragments of a message hold its bytes. -/
theorem flatMap_data (h : IsFrame m g) : g.flatMap Frag.data = m := by
  induction h with
  | last f _ => rw [List.flatMap_cons, List.flatMap_nil, List.append_nil]
  | cons f _ _ ih => rw [List.flatMap_cons, ih]

/-- The bytes of messages are those of their fragments. -/
theorem flatten_eq {ms : List (List UInt8)} {frames : List (List Frag)}
    (h : List.Forall₂ IsFrame ms frames) : ms.flatten = frames.flatten.flatMap Frag.data := by
  induction h with
  | nil => rfl
  | cons hg _ ih =>
      rw [List.flatten_cons, List.flatten_cons, List.flatMap_append, ih, hg.flatMap_data]

/-- The first fragment counts those behind it. -/
theorem head (h : IsFrame m g) {f : Frag} {rest : List Frag} (hg : g = f :: rest) :
    f.frg.toNat = rest.length := by
  cases h with
  | last f' hf =>
      obtain ⟨rfl, rfl⟩ := List.cons.inj hg
      rw [hf]
      rfl
  | cons f' _ hf =>
      obtain ⟨rfl, rfl⟩ := List.cons.inj hg
      exact hf

end IsFrame

namespace Kcp

/-- As many pieces as there are have room for the message. -/
theorem length_le_pieces {mss : ℕ} (hmss : 0 < mss) (len : ℕ) :
    0 < pieces mss len ∧ len ≤ pieces mss len * mss := by
  unfold pieces
  split
  · exact ⟨Nat.one_pos, by omega⟩
  · next hlt =>
      have hdiv := Nat.div_add_mod (len + mss - 1) mss
      have hmod := Nat.mod_lt (len + mss - 1) hmss
      rw [Nat.mul_comm] at hdiv
      refine ⟨Nat.div_pos (by omega) hmss, by omega⟩

/-- **A message is cut into a frame.** -/
theorem isFrame_fragment {mss count : ℕ} {buffer : List UInt8}
    (hlen : buffer.length ≤ (count + 1) * mss) (hcount : count < 2 ^ 32) :
    IsFrame buffer ((fragment 0 mss (count + 1) buffer).map Seg.frag) := by
  induction count generalizing buffer with
  | zero =>
      have htake : buffer.take mss = buffer := List.take_of_length_le (by omega)
      rw [fragment, fragment, htake]
      exact .last ⟨UInt32.ofNat 0, buffer⟩ rfl
  | succ count ih =>
      have hroom : (buffer.drop mss).length ≤ (count + 1) * mss := by
        rw [List.length_drop, Nat.sub_le_iff_le_add, ← Nat.succ_mul]
        exact hlen
      have hrest := ih hroom (by omega)
      have hframe := IsFrame.cons ⟨UInt32.ofNat (count + 1), buffer.take mss⟩ hrest (by
        rw [List.length_map, length_fragment]
        exact UInt32.toNat_ofNat_of_lt' hcount)
      rw [List.take_append_drop] at hframe
      rw [fragment]
      exact hframe

/-- **A frame is taken as a message.** -/
theorem takeMessage_frame {m : List UInt8} {g rest : List Frag} (h : IsFrame m g) {l : List Seg}
    (hl : l.map Seg.frag = g ++ rest) :
    (takeMessage l).1.map Seg.frag = g ∧ (takeMessage l).1.flatMap Seg.data = m := by
  induction h generalizing l with
  | last f hf =>
      obtain ⟨s, t, rfl, hs, -⟩ := List.map_eq_cons_iff.mp hl
      have hfrg : s.frg = 0 := (congrArg Frag.frg hs).trans hf
      rw [takeMessage, if_pos hfrg]
      refine ⟨congrArg (fun f => [f]) hs, ?_⟩
      rw [List.flatMap_cons, List.flatMap_nil, List.append_nil]
      exact congrArg Frag.data hs
  | cons f hg hf ih =>
      obtain ⟨s, t, rfl, hs, ht⟩ := List.map_eq_cons_iff.mp hl
      have hfrg : s.frg ≠ 0 := by
        intro hzero
        have hlen := List.length_pos_of_ne_nil hg.ne_nil
        have hnat : s.frg.toNat = f.frg.toNat := congrArg (fun f => f.frg.toNat) hs
        rw [hzero, hf] at hnat
        exact Nat.lt_irrefl _ (hnat ▸ hlen)
      obtain ⟨hfirst, hdata⟩ := ih ht
      rw [takeMessage, if_neg hfrg]
      refine ⟨?_, ?_⟩
      · rw [List.map_cons, hfirst, hs]
      · rw [List.flatMap_cons, hdata]
        exact congrArg (· ++ _) (congrArg Frag.data hs)

/-! ### What the calls do to messages -/

variable {k : Kcp} {c : Call}

/-- `ikcp_send` of a message of 128 pieces or more fails, as does that of fewer than no bytes;
else the pieces of the message go to `snd_queue`. -/
theorem send_cases (hstream : k.stream = 0) (buffer : List UInt8) (len : ℤ) :
    ((k.send buffer len).1 < 0 ∧ (k.send buffer len).2 = k) ∨
      (pieces k.mss.toNat (buffer.take len.toNat).length < 128 ∧ k.send buffer len =
        (0, k.enqueue (pieces k.mss.toNat (buffer.take len.toNat).length)
          (buffer.take len.toNat))) := by
  have happend : k.sendAppend (buffer.take len.toNat) = (k, buffer.take len.toNat) := if_pos hstream
  have hwnd : wndRcv.toNat = 128 := rfl
  unfold send
  dsimp only
  rw [happend]
  dsimp only
  split_ifs with hneg hdone hmany
  · exact .inl ⟨Int.negSucc_lt_zero _, rfl⟩
  · exact absurd hstream hdone.1
  · exact .inl ⟨Int.negSucc_lt_zero _, rfl⟩
  · exact .inr ⟨by omega, rfl⟩

/-- The messages that a call takes go to `snd_queue` as frames, and what leaves it in front is
numbered. -/
theorem numbering_append (hstream : k.stream = 0) (hmss : 0 < k.mss.toNat) (c : Call) :
    ∃ frames, List.Forall₂ IsFrame (k.taking c) frames ∧ (∀ g ∈ frames, g.length < 128) ∧
      k.numbering c ++ (k.call c).1.outgoing.queue = k.outgoing.queue ++ frames.flatten := by
  have hkeep {c : Call} (moved : List Frag) (htake : k.taking c = [])
      (hqueue : k.outgoing.queue = moved ++ (k.call c).1.outgoing.queue) :
      ∃ frames, List.Forall₂ IsFrame (k.taking c) frames ∧ (∀ g ∈ frames, g.length < 128) ∧
        k.numbering c ++ (k.call c).1.outgoing.queue = k.outgoing.queue ++ frames.flatten := by
    refine ⟨[], by rw [htake]; exact .nil, by rintro g ⟨⟩, ?_⟩
    rw [numbering_of_append hqueue, ← hqueue, List.flatten_nil, List.append_nil]
  cases c with
  | send buffer len =>
      obtain ⟨hneg, heq⟩ | ⟨hcount, heq⟩ := send_cases hstream buffer len
      · refine hkeep [] (if_neg (by omega)) ?_
        rw [call, heq]
        rfl
      · obtain ⟨hpos, hroom⟩ := length_le_pieces hmss (buffer.take len.toNat).length
        obtain ⟨n, hn⟩ := Nat.exists_eq_succ_of_ne_zero (Nat.ne_of_gt hpos)
        rw [hn] at hcount hroom heq
        obtain ⟨g, hg⟩ : ∃ g, g =
            (fragment k.stream k.mss.toNat (n + 1) (buffer.take len.toNat)).map Seg.frag := ⟨_, rfl⟩
        have hframe : IsFrame (buffer.take len.toNat) g := by
          rw [hg, hstream]
          exact isFrame_fragment hroom (by omega)
        have hlen : g.length < 128 := by
          rw [hg, List.length_map, length_fragment]
          exact hcount
        have hqueue : (k.call (.send buffer len)).1.outgoing.queue = k.outgoing.queue ++ g := by
          rw [hg, call, heq]
          exact List.map_append
        have hsent : k.taking (.send buffer len) = [buffer.take len.toNat] := by
          rw [taking, heq]
          exact if_pos rfl
        refine ⟨[g], ?_, ?_, ?_⟩
        · rw [hsent]
          exact .cons hframe .nil
        · intro g' hg'
          rwa [List.mem_singleton.mp hg']
        · rw [numbering_eq_nil (by rw [hqueue, List.length_append]; omega), List.nil_append, hqueue,
            List.flatten_singleton]
  | recv len =>
      refine hkeep [] rfl ?_
      rw [call, recv_outgoing]
      rfl
  | input data => exact hkeep [] rfl (input_queue data).symm
  | update current =>
      obtain ⟨u, f, hupdate⟩ := update_cases (k := k) current
      rcases hupdate with heq | heq
      · refine hkeep [] rfl ?_
        rw [call, heq]
        rfl
      · obtain ⟨moved, hmoved⟩ := (flush_outgoing
          (k := { k with current := current, updated := u, tsFlush := f })).exists_moved
        refine hkeep moved rfl ?_
        rw [call, heq]
        exact hmoved
  | flush =>
      obtain ⟨moved, hmoved⟩ := (flush_outgoing (k := k)).exists_moved
      exact hkeep moved rfl hmoved
  | setmtu mtu =>
      obtain ⟨a, b, heq⟩ := setmtu_eq (k := k) mtu
      refine hkeep [] rfl ?_
      rw [call, heq]
      rfl
  | interval n => exact hkeep [] rfl rfl
  | nodelay a b c d =>
      obtain ⟨_, _, _, _, _, heq⟩ := setNodelay_eq (k := k) a b c d
      refine hkeep [] rfl ?_
      rw [call, heq]
      rfl
  | wndsize sndwnd rcvwnd =>
      obtain ⟨a, heq⟩ := wndsize_eq (k := k) sndwnd rcvwnd
      refine hkeep [] rfl ?_
      rw [call, heq]
      rfl

/-- A segment has the data of its fragment. -/
theorem flatMap_frag_data (l : List Seg) :
    (l.map Seg.frag).flatMap Frag.data = l.flatMap Seg.data :=
  List.flatMap_map _ _ _

/-- There is nothing to look at in an empty queue. -/
theorem peeksize_of_nil (h : k.rcvQueue = []) : k.peeksize = -1 := by
  rw [peeksize, h]

/-- The lengths of segments add up to that of their bytes. -/
theorem totalLen_eq (l : List Seg) : totalLen l = (l.flatMap Seg.data).length := by
  rw [totalLen, List.length_flatMap]

/-- The size of a message that has come whole, or what tells that it has. -/
theorem peeksize_frame {W : ℕ} {m : List UInt8} {g rest : List Frag} (hk : k.incoming.Ok W)
    (hW : W < 2 ^ 31) (h : IsFrame m g) (hlen : g.length ≤ 128)
    (hq : k.rcvQueue.map Seg.frag = g ++ rest) : k.peeksize = m.length := by
  obtain ⟨-, hdata⟩ := takeMessage_frame h hq
  have hcount : k.nrcvQue.toNat = k.rcvQueue.length := hk.toNat_nqueue hW
  obtain ⟨f, gs, rfl⟩ := List.exists_cons_of_ne_nil h.ne_nil
  obtain ⟨s, t, hqueue, hs, ht⟩ := List.map_eq_cons_iff.mp hq
  have hfrg : s.frg.toNat = gs.length := (congrArg (fun f => f.frg.toNat) hs).trans (h.head rfl)
  have hroom : gs.length ≤ t.length := by
    have hlength : (t.map Seg.frag).length = (gs ++ rest).length := congrArg List.length ht
    rw [List.length_map, List.length_append] at hlength
    omega
  rw [hqueue, List.length_cons] at hcount
  rw [List.length_cons] at hlen
  unfold peeksize
  rw [hqueue]
  dsimp only
  split_ifs with hzero hfew
  · rw [hqueue, takeMessage, if_pos hzero, List.flatMap_cons, List.flatMap_nil,
      List.append_nil] at hdata
    rw [hdata]
  · rw [UInt32.lt_iff_toNat_lt, UInt32.toNat_add, UInt32.toNat_one,
      Nat.mod_eq_of_lt (by omega)] at hfew
    omega
  · rw [← hqueue, totalLen_eq, hdata]

/-- `ikcp_peeksize` fails unless there are as many segments as the first one counts. -/
theorem length_le_of_peeksize {W : ℕ} {f : Frag} {q : List Frag} (hk : k.incoming.Ok W)
    (hW : W < 2 ^ 31) (hfrg : f.frg.toNat < 128) (hq : k.rcvQueue.map Seg.frag = f :: q)
    (hpeek : 0 ≤ k.peeksize) : f.frg.toNat + 1 ≤ k.rcvQueue.length := by
  have hcount : k.nrcvQue.toNat = k.rcvQueue.length := hk.toNat_nqueue hW
  obtain ⟨s, t, hqueue, rfl, -⟩ := List.map_eq_cons_iff.mp hq
  have hnat : s.frag.frg = s.frg := rfl
  unfold peeksize at hpeek
  rw [hqueue] at hpeek hcount ⊢
  dsimp only at hpeek
  rw [hnat] at hfrg ⊢
  split_ifs at hpeek with hzero hfew
  · rw [hzero, List.length_cons, UInt32.toNat_zero]
    omega
  · omega
  · rw [UInt32.lt_iff_toNat_lt, UInt32.toNat_add, UInt32.toNat_one,
      Nat.mod_eq_of_lt (by omega)] at hfew
    omega

/-- A buffer that is large enough gets the message. -/
theorem recv_of_peeksize {m : List UInt8} {g rest : List Frag} (h : IsFrame m g)
    (hq : k.rcvQueue.map Seg.frag = g ++ rest) (hpeek : k.peeksize = m.length) {len : ℤ}
    (hlen : m.length ≤ |len|) : (k.recv len).1 = m.length ∧ (k.recv len).2.1 = m := by
  obtain ⟨-, hdata⟩ := takeMessage_frame h hq
  have hne : k.rcvQueue ≠ [] := by
    rintro hnil
    rw [hnil, List.map_nil] at hq
    exact h.ne_nil (List.append_eq_nil_iff.mp hq.symm).1
  rw [recv, if_neg hne, if_neg (by omega), if_neg (by omega)]
  refine ⟨?_, hdata⟩
  rw [← hdata, ← totalLen_eq]

end Kcp

/-! ### The messages of a direction -/

/-- What one end has taken, and what the other has handed out of it: `frames` are the fragments of
each message taken. -/
structure Transfer (frames : List (List Frag)) (x y : End) : Prop where
  sent : List.Forall₂ IsFrame x.sent frames
  short : ∀ g ∈ frames, g.length < 128
  numbered : x.log ++ x.kcp.outgoing.queue = frames.flatten
  got : y.got <+: x.sent
  used : y.used = (frames.take y.got.length).flatten

namespace Transfer

variable {W : ℕ} {frames : List (List Frag)} {x y : End}

/-- **A message that has come is the next one.** What is in `rcv_queue` begins with the fragments
that have not been handed out, and holds a whole message where `ikcp_peeksize` says so. -/
theorem next (h : Transfer frames x y) (hbegins : y.used ++ y.kcp.rcvQueue.map Seg.frag <+: x.log)
    (hk : y.kcp.incoming.Ok W) (hW : W < 2 ^ 31) (hqueue : y.kcp.rcvQueue ≠ [])
    (hwhole : 0 ≤ y.kcp.peeksize ∨ 128 ≤ y.kcp.rcvQueue.length) :
    ∃ m g rest, x.sent[y.got.length]? = some m ∧ frames[y.got.length]? = some g ∧ IsFrame m g ∧
      y.kcp.rcvQueue.map Seg.frag = g ++ rest ∧ y.kcp.peeksize = m.length := by
  have hrest : y.kcp.rcvQueue.map Seg.frag <+: (frames.drop y.got.length).flatten := by
    have hall : y.used ++ y.kcp.rcvQueue.map Seg.frag <+: frames.flatten :=
      hbegins.trans (h.numbered ▸ List.prefix_append _ _)
    rw [← List.take_append_drop y.got.length frames, List.flatten_append, ← h.used,
      List.prefix_append_right_inj] at hall
    exact hall
  cases hdrop : frames.drop y.got.length with
  | nil =>
      rw [hdrop, List.flatten_nil, List.prefix_nil, List.map_eq_nil_iff] at hrest
      exact absurd hrest hqueue
  | cons g gs =>
      have hg : frames[y.got.length]? = some g := by
        rw [← List.head?_drop, hdrop]
        rfl
      obtain ⟨m, hm, hframe⟩ : ∃ m, x.sent[y.got.length]? = some m ∧ IsFrame m g := by
        obtain ⟨hlt, hget⟩ := List.getElem?_eq_some_iff.mp hg
        have hlt' : y.got.length < x.sent.length := by rwa [h.sent.length_eq]
        refine ⟨_, List.getElem?_eq_getElem hlt', ?_⟩
        rw [← hget]
        exact h.sent.get hlt' hlt
      have hshort := h.short g (List.mem_of_getElem? hg)
      rw [hdrop, List.flatten_cons] at hrest
      -- the first segment counts those of its message
      have hlen : g.length ≤ (y.kcp.rcvQueue.map Seg.frag).length := by
        rw [List.length_map]
        rcases hwhole with hpeek | hfull
        · obtain ⟨f, q, hq⟩ := List.exists_cons_of_ne_nil
            (List.map_eq_nil_iff.not.mpr hqueue : y.kcp.rcvQueue.map Seg.frag ≠ [])
          obtain ⟨f', gs', rfl⟩ := List.exists_cons_of_ne_nil hframe.ne_nil
          rw [hq, List.cons_append, List.cons_prefix_cons] at hrest
          obtain ⟨rfl, -⟩ := hrest
          have hfrg := hframe.head rfl
          rw [List.length_cons] at hshort ⊢
          have hcount := Kcp.length_le_of_peeksize hk hW (by omega) hq hpeek
          omega
        · omega
      obtain ⟨rest, hq⟩ :=
        List.prefix_of_prefix_length_le (List.prefix_append g gs.flatten) hrest hlen
      exact ⟨m, g, rest, hm, hg, hframe, hq.symm,
        Kcp.peeksize_frame hk hW hframe (by omega) hq.symm⟩

/-- What the sending end does keeps the transfer. -/
theorem act_left (h : Transfer frames x y) (hstream : x.kcp.stream = 0)
    (hmss : 0 < x.kcp.mss.toNat) (c : Kcp.Call) :
    ∃ more, Transfer (frames ++ more) (x.act c) y := by
  obtain ⟨more, hsent, hshort, hqueue⟩ := Kcp.numbering_append hstream hmss c
  have hle : y.got.length ≤ frames.length := by
    rw [← h.sent.length_eq]
    exact h.got.length_le
  refine ⟨more, List.rel_append h.sent hsent, ?_, ?_, ?_, ?_⟩
  · intro g hg
    rcases List.mem_append.mp hg with hg | hg
    · exact h.short g hg
    · exact hshort g hg
  · show x.log ++ x.kcp.numbering c ++ (x.kcp.call c).1.outgoing.queue = (frames ++ more).flatten
    rw [List.append_assoc, hqueue, ← List.append_assoc, h.numbered, List.flatten_append]
  · exact h.got.trans (List.prefix_append _ _)
  · rw [List.take_append_of_le_length hle]
    exact h.used

/-- What the receiving end does keeps the transfer. -/
theorem act_right (h : Transfer frames x y)
    (hbegins : y.used ++ y.kcp.rcvQueue.map Seg.frag <+: x.log) (hk : y.kcp.incoming.Ok W)
    (hW : W < 2 ^ 31) (c : Kcp.Call) : Transfer frames x (y.act c) := by
  have hkeep (hhand : y.kcp.handing c = []) (hgive : y.kcp.giving c = []) :
      Transfer frames x (y.act c) := by
    refine ⟨h.sent, h.short, h.numbered, ?_, ?_⟩
    · rw [End.act, hgive, List.append_nil]
      exact h.got
    · rw [End.act, hhand, hgive, List.map_nil, List.append_nil, List.append_nil]
      exact h.used
  cases c with
  | recv len =>
      obtain ⟨hneg, -⟩ | ⟨hqueue, hpeek, -, hret, hbytes, -⟩ := Kcp.recv_cases (k := y.kcp) len
      · exact hkeep (if_neg (by omega)) (if_neg (by omega))
      · by_cases hlen : 0 ≤ len
        · obtain ⟨m, g, rest, hm, hg, hframe, hq, -⟩ :=
            h.next hbegins hk hW hqueue (.inl hpeek)
          obtain ⟨hfirst, hdata⟩ := Kcp.takeMessage_frame hframe hq
          have hhand : y.kcp.handing (.recv len) = (Kcp.takeMessage y.kcp.rcvQueue).1 :=
            if_pos ⟨by rw [hret]; exact Int.natCast_nonneg _, hlen⟩
          have hgive : y.kcp.giving (.recv len) = [m] := by
            rw [← hdata, ← hbytes]
            exact if_pos ⟨by rw [hret]; exact Int.natCast_nonneg _, hlen⟩
          refine ⟨h.sent, h.short, h.numbered, ?_, ?_⟩
          · rw [End.act, hgive]
            show y.got ++ [m] <+: x.sent
            obtain ⟨hlt, hget⟩ := List.getElem?_eq_some_iff.mp hm
            rw [← hget]
            exact List.concat_get_prefix h.got hlt
          · rw [End.act, hhand, hgive, hfirst]
            show y.used ++ g = (frames.take (y.got ++ [m]).length).flatten
            rw [List.length_append, List.length_singleton, List.take_add_one, hg,
              List.flatten_append, ← h.used]
            exact congrArg _ (List.append_nil g).symm
        · exact hkeep (if_neg fun hand => hlen hand.2) (if_neg fun hand => hlen hand.2)
  | _ => exact hkeep rfl rfl

end Transfer

namespace Link

variable {conv : UInt32} {l : Link} {S : Side → Arq.State Frag}

/-- What has been handed out and what is in `rcv_queue` is a beginning of what was numbered. -/
theorem Rel.used_prefix (h : Rel conv l S) (s : Side) :
    (l s.other).used ++ (l s.other).kcp.rcvQueue.map Seg.frag <+: (l s).log := by
  have hrel := h.rel s.other
  rw [Side.other_other] at hrel
  have htaken : (S s).rx.taken = (l s.other).used ++ (l s.other).kcp.rcvQueue.map Seg.frag :=
    hrel.rx.taken
  rw [← htaken, ← (h.rel s).tx.log_eq]
  exact Arq.taken_prefix (h.reachable s)

/-- What came early lies in the order of its numbers. -/
theorem Rel.early_sorted (h : Rel conv l S) (s : Side)
    (hsorted : (l s.other).kcp.rcvBuf.Pairwise fun e e' =>
      Serial.offset (l s.other).kcp.rcvNxt e.sn < Serial.offset (l s.other).kcp.rcvNxt e'.sn) :
    ((l s.other).kcp.rcvBuf.map fun e => (e.sn.toNat, e.frag)).Pairwise
      fun p q => p.1 < q.1 := by
  have hrx := (h.rel s.other).rx
  rw [Side.other_other] at hrx
  have hahead : ∀ e ∈ (l s.other).kcp.rcvBuf, (l s.other).kcp.rcvNxt.toNat ≤ e.sn.toNat := by
    intro e he
    have hstash : (e.sn.toNat, e.frag) ∈ (S s).rx.stash := by
      rw [hrx.stash]
      exact ⟨e, he, rfl⟩
    have hle := ((Arq.safe_of_reachable (h.reachable s)).stash _ _ hstash).1
    rwa [hrx.next_eq] at hle
  rw [List.pairwise_map]
  refine hsorted.imp_of_mem ?_
  intro e e' he he' hlt
  rw [Serial.offset_of_le (hahead e he), Serial.offset_of_le (hahead e' he')] at hlt
  show e.sn.toNat < e'.sn.toNat
  omega

/-- A step keeps the transfer in both directions. -/
theorem Rel.transfer (h : Rel conv l S) (hok : ∀ s, (l s).Ok conv)
    (htransfer : ∀ s, ∃ frames, Transfer frames (l s) (l s.other)) {l' : Link} {a : Action}
    (hstep : l.step a = some l') : ∀ s, ∃ frames, Transfer frames (l' s) (l' s.other) := by
  obtain ⟨s, c, rfl, -⟩ := step_cases hstep
  refine s.forall ?_ ?_
  · obtain ⟨frames, hframes⟩ := htransfer s
    obtain ⟨more, hmore⟩ := hframes.act_left (hok s).stream_eq (hok s).bounded.mss_pos c
    rw [act_self, act_other]
    exact ⟨_, hmore⟩
  · obtain ⟨frames, hframes⟩ := htransfer s.other
    have hbegins := h.used_prefix s.other
    rw [Side.other_other] at hframes hbegins
    rw [act_other, Side.other_other, act_self]
    exact ⟨frames, hframes.act_right hbegins (hok s).windows.incoming (by omega) c⟩

/-- **The invariant of a link**: its directions stand for automatic repeat requests, and transfer
messages. -/
theorem transfer_of_reach (h : Lts.Reach step inBounds (start conv) l)
    (hfew : ∀ s, (l s).log.length < 2 ^ 31) :
    ∃ S, Rel conv l S ∧ ∀ s, ∃ frames, Transfer frames (l s) (l s.other) := by
  induction h with
  | refl =>
      refine ⟨_, rel_start, fun s => ⟨[], .nil, ?_, rfl, List.prefix_refl _, rfl⟩⟩
      rintro g ⟨⟩
  | tail hreach _ hstep ih =>
      have hok := ok_of_reach hreach
      obtain ⟨S, hrel, htransfer⟩ :=
        ih fun t => Nat.lt_of_le_of_lt (log_le_of_step hstep t) (hfew t)
      obtain ⟨S', hrel'⟩ := hrel.of_step hok hstep hfew
      exact ⟨S', hrel', hrel.transfer hok htransfer hstep⟩

/-- A run in which two datagrams with a message of two fragments and another message come the wrong
way round. The first message is handed out, and all is acknowledged. -/
theorem exists_swapped : ∃ l, Lts.Reach step inBounds (start 7) l ∧
    ((l .server).got = [List.replicate 26 1 ++ [2]] ∧ 0 ≤ (l .server).kcp.peeksize ∧
      (l .client).log[1]? = some ⟨0, [2]⟩ ∧ (l .client).kcp.sndQueue = [] ∧
      (l .client).kcp.sndBuf = []) ∧
    (l .client).log.length < 4 ∧ (l .server).log.length < 4 :=
  Lts.Reach.exists_of_exec
    [.call .client (.setmtu 50), .call .client (.nodelay 0 0 0 1),
      .call .client (.send (List.replicate 26 1 ++ [2]) 27), .call .client (.send [3] 1),
      .call .client (.update 0),
      .deliver .server
        [[7, 0, 0, 0, 81, 0, 128, 0, 0, 0, 0, 0, 1, 0, 0, 0, 0, 0, 0, 0, 1, 0, 0, 0, 2,
          7, 0, 0, 0, 81, 0, 128, 0, 0, 0, 0, 0, 2, 0, 0, 0, 0, 0, 0, 0, 1, 0, 0, 0, 3],
        [7, 0, 0, 0, 81, 1, 128, 0, 0, 0, 0, 0, 0, 0, 0, 0, 0, 0, 0, 0, 26, 0, 0, 0] ++
          List.replicate 26 1],
      .call .server (.recv 100), .call .server (.update 0),
      .deliver .client
        [[7, 0, 0, 0, 82, 0, 127, 0, 0, 0, 0, 0, 1, 0, 0, 0, 3, 0, 0, 0, 0, 0, 0, 0,
          7, 0, 0, 0, 82, 0, 127, 0, 0, 0, 0, 0, 2, 0, 0, 0, 3, 0, 0, 0, 0, 0, 0, 0,
          7, 0, 0, 0, 82, 0, 127, 0, 0, 0, 0, 0, 0, 0, 0, 0, 3, 0, 0, 0, 0, 0, 0, 0]]]
    (by decide +kernel)

/-- **The messages handed out at an end are those taken at the other one**, in the same order, each
once and whole. -/
theorem got_prefix_sent (h : Lts.Reach step inBounds (start conv) l)
    (hfew : ∀ s, (l s).log.length < 2 ^ 31) (s : Side) : (l s.other).got <+: (l s).sent := by
  obtain ⟨-, -, htransfer⟩ := transfer_of_reach h hfew
  obtain ⟨frames, hframes⟩ := htransfer s
  exact hframes.got

/-- The message of two datagrams that have been swapped. -/
theorem got_prefix_sent_swapped :
    ∃ l : Link, (l .server).got = [List.replicate 26 1 ++ [2]] ∧
      (l .server).got <+: (l .client).sent := by
  obtain ⟨l, hreach, ⟨hgot, -⟩, hclient, hserver⟩ := exists_swapped
  exact ⟨l, hgot, got_prefix_sent hreach (fun s => by cases s <;> omega) .client⟩

/-- **A receive window that is full holds a whole message**, so that `ikcp_recv` can always open it
again. The message that `ikcp_peeksize` tells of is the next one, and a buffer that is large enough
gets it. -/
theorem recv_next (h : Lts.Reach step inBounds (start conv) l)
    (hfew : ∀ s, (l s).log.length < 2 ^ 31) (s : Side)
    (hready : 0 ≤ (l s.other).kcp.peeksize ∨ (l s.other).kcp.rcvWnd ≤ (l s.other).kcp.nrcvQue) :
    ∃ m, (l s).sent[(l s.other).got.length]? = some m ∧ (l s.other).kcp.peeksize = m.length ∧
      ∀ len : ℤ, m.length ≤ |len| →
        ((l s.other).kcp.recv len).1 = m.length ∧ ((l s.other).kcp.recv len).2.1 = m := by
  obtain ⟨S, hrel, htransfer⟩ := transfer_of_reach h hfew
  obtain ⟨frames, hframes⟩ := htransfer s
  have hin := (ok_of_reach h s.other).windows.incoming
  have hwhole : 0 ≤ (l s.other).kcp.peeksize ∨ 128 ≤ (l s.other).kcp.rcvQueue.length := by
    refine hready.imp id fun hfull => ?_
    have hcount : (l s.other).kcp.nrcvQue.toNat = (l s.other).kcp.rcvQueue.length :=
      hin.toNat_nqueue (by omega)
    have hwnd : wndRcv ≤ (l s.other).kcp.rcvWnd := hin.wnd_ge
    have hle := UInt32.le_iff_toNat_le.mp (UInt32.le_trans hwnd hfull)
    rwa [hcount] at hle
  have hne : (l s.other).kcp.rcvQueue ≠ [] := by
    intro hnil
    rw [Kcp.peeksize_of_nil hnil, hnil] at hwhole
    exact absurd hwhole (by decide)
  obtain ⟨m, g, rest, hm, -, hframe, hq, hpeek⟩ :=
    hframes.next (hrel.used_prefix s) hin (by omega) hne hwhole
  exact ⟨m, hm, hpeek, fun len hlen => Kcp.recv_of_peeksize hframe hq hpeek hlen⟩

/-- The message behind it, which `ikcp_peeksize` tells of. -/
theorem recv_next_swapped :
    ∃ (l : Link) (m : List UInt8), (l .client).sent[(l .server).got.length]? = some m ∧
      (l .server).kcp.peeksize = m.length ∧ ∀ len : ℤ, m.length ≤ |len| →
        ((l .server).kcp.recv len).1 = m.length ∧ ((l .server).kcp.recv len).2.1 = m := by
  obtain ⟨l, hreach, ⟨-, hpeek, -⟩, hclient, hserver⟩ := exists_swapped
  exact ⟨l, recv_next hreach (fun s => by cases s <;> omega) .client (.inl hpeek)⟩

/-- **No fragment is lost.** A fragment with a number is in `snd_buf`, to be sent again, or has come
to the other end, where it is in its place. -/
theorem flight_or_received (h : Lts.Reach step inBounds (start conv) l)
    (hfew : ∀ s, (l s).log.length < 2 ^ 31) (s : Side) {n : ℕ} {f : Frag}
    (hn : (l s).log[n]? = some f) :
    (∃ e ∈ (l s).kcp.sndBuf, e.sn.toNat = n ∧ e.frag = f) ∨
      ((l s.other).used ++ (l s.other).kcp.rcvQueue.map Seg.frag)[n]? = some f ∨
      ∃ e ∈ (l s.other).kcp.rcvBuf, e.sn.toNat = n ∧ e.frag = f := by
  obtain ⟨S, hrel, -⟩ := transfer_of_reach h hfew
  have htx := (hrel.rel s).tx
  have hrx := (hrel.rel s.other).rx
  rw [Side.other_other] at hrx
  have hsafe := Arq.safe_of_reachable (hrel.reachable s)
  rcases hsafe.complete n (by rw [htx.log_eq]; exact (List.getElem?_eq_some_iff.mp hn).1) with
    hpending | hnext | ⟨y, hy⟩
  · rw [htx.pending] at hpending
    obtain ⟨e, he, rfl⟩ := hpending
    obtain ⟨t, ht, rfl⟩ := List.mem_map.mp he
    have hlog := htx.flight _ he
    exact .inl ⟨t, ht, rfl, Option.some.inj (hlog.symm.trans hn)⟩
  · have htaken : (S s).rx.taken =
        (l s.other).used ++ (l s.other).kcp.rcvQueue.map Seg.frag := hrx.taken
    rw [← htaken, hsafe.taken_eq, List.getElem?_take_of_lt hnext, htx.log_eq]
    exact .inr (.inl hn)
  · have hlog := (hsafe.stash n y hy).2
    rw [htx.log_eq, hn] at hlog
    rw [hrx.stash] at hy
    obtain ⟨e, he, heq⟩ := hy
    exact .inr (.inr ⟨e, he, congrArg Prod.fst heq,
      (congrArg Prod.snd heq).trans (Option.some.inj hlog).symm⟩)

/-- The second fragment of the first message. -/
theorem flight_or_received_swapped :
    ∃ l : Link, (∃ e ∈ (l .client).kcp.sndBuf, e.sn.toNat = 1 ∧ e.frag = ⟨0, [2]⟩) ∨
      ((l .server).used ++ (l .server).kcp.rcvQueue.map Seg.frag)[1]? = some ⟨0, [2]⟩ ∨
      ∃ e ∈ (l .server).kcp.rcvBuf, e.sn.toNat = 1 ∧ e.frag = ⟨0, [2]⟩ := by
  obtain ⟨l, hreach, ⟨-, -, hlog, -⟩, hclient, hserver⟩ := exists_swapped
  exact ⟨l, flight_or_received hreach (fun s => by cases s <;> omega) .client hlog⟩

/-- **Nothing is lost.** When all that an end has taken is acknowledged, the other end has all of
it: what it has handed out, and what is in its queues. -/
theorem sent_flatten (h : Lts.Reach step inBounds (start conv) l)
    (hfew : ∀ s, (l s).log.length < 2 ^ 31) (s : Side) (hqueue : (l s).kcp.sndQueue = [])
    (hbuf : (l s).kcp.sndBuf = []) :
    (l s).sent.flatten = (l s.other).got.flatten ++
      ((l s.other).kcp.rcvQueue ++ (l s.other).kcp.rcvBuf).flatMap Seg.data := by
  obtain ⟨S, hrel, htransfer⟩ := transfer_of_reach h hfew
  obtain ⟨frames, hframes⟩ := htransfer s
  have htx := (hrel.rel s).tx
  have hrx := (hrel.rel s.other).rx
  rw [Side.other_other] at hrx
  have hin := (ok_of_reach h s.other).windows.incoming
  have hpending : (S s).tx.pending = ∅ := by
    rw [htx.pending]
    ext n
    simp [Kcp.outgoing, hbuf]
  have hlog : (l s).log = frames.flatten := by
    have hnumbered := hframes.numbered
    rwa [Kcp.outgoing, hqueue, List.map_nil, List.append_nil] at hnumbered
  -- what came early is the rest, in the order of the numbers
  have hrest := Arq.taken_append_eq_log (hrel.reachable s) hpending
    (l := (l s.other).kcp.rcvBuf.map fun e => (e.sn.toNat, e.frag)) ?_ ?_
  · rw [hrx.taken, htx.log_eq, List.map_map] at hrest
    have hgot : (l s.other).got.flatten = (l s.other).used.flatMap Frag.data := by
      rw [List.prefix_iff_eq_take.mp hframes.got, hframes.used]
      exact IsFrame.flatten_eq (List.forall₂_take _ hframes.sent)
    rw [IsFrame.flatten_eq hframes.sent, ← hlog, ← hrest, hgot, List.flatMap_append,
      List.flatMap_append, List.flatMap_append, List.append_assoc]
    rw [Kcp.flatMap_frag_data]
    exact congrArg _ (congrArg _ (Kcp.flatMap_frag_data _))
  · exact hrel.early_sorted s hin.sorted
  · intro p
    rw [hrx.stash]
    exact List.mem_map

/-- Both messages, when all is acknowledged. -/
theorem sent_flatten_swapped :
    ∃ l : Link, (l .client).sent.flatten = (l .server).got.flatten ++
      ((l .server).kcp.rcvQueue ++ (l .server).kcp.rcvBuf).flatMap Seg.data := by
  obtain ⟨l, hreach, ⟨-, -, -, hqueue, hbuf⟩, hclient, hserver⟩ := exists_swapped
  exact ⟨l, sent_flatten hreach (fun s => by cases s <;> omega) .client hqueue hbuf⟩

end Link

end ArchNet.Udp

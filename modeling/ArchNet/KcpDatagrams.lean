import ArchNet.KcpWire
import ArchNet.Lts

/-!
# The Datagrams of a Run

A flush looks at `mtu` before each segment, but only to begin a new datagram: what keeps a single
segment within `mtu` is that `ikcp_send` has cut it to `mss`. The bound on the data is carried
through the runs here, with the rest of what `ikcp_input` asks of a segment at the other end.

* `Outgoing.Bounded B` — every segment is of this connection, and has at most `B` bytes of data.
* `Kcp.Cut` — all data is cut to `mss`.

## Main results

* `bounded_call`: each call keeps the bound.
* `length_le_mtu`: **no datagram is larger than `mtu`**, and so the buffer never holds more, in
  every run in which `mtu` is not lowered.
* `inBounds_of_reach`: in such a run, below 2^30, no flush goes behind its block.
* `input_datagrams`: **what a call sends is read back** by a block of the same connection, segment
  by segment, each segment of the flush once.
-/

open Bytes

namespace ArchNet.Udp

namespace Outgoing

variable {P : UInt32 → Prop} {B : ℕ} {o o' : Outgoing}

/-- The data in the queues has `B` bytes a segment at most, and the segments have their labels. -/
structure Bounded (B : ℕ) (o : Outgoing) : Prop where
  mss_le : o.mss.toNat ≤ B
  mss_pos : 0 < o.mss.toNat
  mtu_eq : o.mtu.toNat = overhead + o.mss.toNat
  flight : ∀ s ∈ o.flight,
    s.conv = o.conv ∧ s.cmd = cmdPush ∧ s.frg.toNat < 128 ∧ s.data.length ≤ B
  queue : ∀ f ∈ o.queue, f.frg.toNat < 128 ∧ f.data.length ≤ B

/-- A bound may be widened. -/
theorem Bounded.mono {B' : ℕ} (h : o.Bounded B) (hle : B ≤ B') : o.Bounded B' where
  mss_le := h.mss_le.trans hle
  mss_pos := h.mss_pos
  mtu_eq := h.mtu_eq
  flight s hs := (h.flight s hs).imp id (And.imp id (And.imp id fun hlen => hlen.trans hle))
  queue f hf := (h.queue f hf).imp id fun hlen => hlen.trans hle

/-- A fragment that is numbered keeps its data. -/
theorem Bounded.filled (h : o.Bounded B) (hs : Filled o o') : o'.Bounded B := by
  induction hs with
  | refl => exact h
  | tail _ hs ih =>
      cases hs with
      | mk f rest cwnd hq _ _ =>
          have hqueue := ih.queue
          rw [hq] at hqueue
          refine ⟨ih.mss_le, ih.mss_pos, ih.mtu_eq, ?_,
            fun g hg => hqueue g (List.mem_cons_of_mem _ hg)⟩
          intro s hs
          rcases List.mem_append.mp hs with hs | hs
          · exact ih.flight s hs
          · rw [List.mem_singleton.mp hs]
            exact ⟨rfl, rfl, hqueue f List.mem_cons_self⟩

/-- What the sending side is told adds no segment. -/
theorem Bounded.told (h : o.Bounded B) (hs : Told P o o') : o'.Bounded B := by
  induction hs with
  | refl => exact h
  | tail _ hs ih =>
      cases hs with
      | release pre post e hf _ =>
          refine ⟨ih.mss_le, ih.mss_pos, ih.mtu_eq, ?_, ih.queue⟩
          intro s hs
          refine ih.flight s (hf ▸ ?_)
          exact (List.Sublist.append_left (List.sublist_cons_self e post) pre).subset hs
      | shrink => exact ⟨ih.mss_le, ih.mss_pos, ih.mtu_eq, ih.flight, ih.queue⟩
      | remote wnd _ => exact ⟨ih.mss_le, ih.mss_pos, ih.mtu_eq, ih.flight, ih.queue⟩

end Outgoing

namespace Kcp

variable {B : ℕ} {k : Kcp}

/-! ### Sending -/

/-- A piece of a message has `mss` bytes at most, and counts the pieces behind it. -/
theorem of_mem_fragment {stream : Int32} {mss count : ℕ} {buffer : List UInt8} {s : Seg}
    (hs : s ∈ fragment stream mss count buffer) (hcount : count ≤ 128) :
    s.frg.toNat < 128 ∧ s.data.length ≤ mss := by
  induction count generalizing buffer with
  | zero => cases hs
  | succ count ih =>
      rw [fragment] at hs
      rcases List.mem_cons.mp hs with rfl | hs
      · refine ⟨?_, List.length_take_le _ _⟩
        dsimp only
        split
        · rw [UInt32.toNat_ofNat', Nat.mod_eq_of_lt (by omega)]
          omega
        · decide
      · exact ih hs (by omega)

/-- The last segment of `snd_queue` is filled up to `mss`. -/
theorem bounded_sendAppend (h : k.outgoing.Bounded B) (hB : B < 2 ^ 31) (buffer : List UInt8) :
    (k.sendAppend buffer).1.outgoing.Bounded B := by
  unfold sendAppend
  split
  · exact h
  · split
    · exact h
    · next old hold =>
        have hmem := List.mem_of_getLast? hold
        split
        · next hlt =>
            have hfrag := h.queue old.frag (List.mem_map_of_mem hmem)
            have hlen : old.data.length < k.mss.toNat := by
              have hnat : old.len.toNat = old.data.length := by
                have hle : old.data.length ≤ B := hfrag.2
                rw [Seg.len, UInt32.toNat_ofNat']
                exact Nat.mod_eq_of_lt (by omega)
              exact hnat ▸ UInt32.lt_iff_toNat_lt.mp hlt
            refine ⟨h.mss_le, h.mss_pos, h.mtu_eq, h.flight, ?_⟩
            intro f hf
            obtain ⟨s, hs, rfl⟩ := List.mem_map.mp hf
            rcases List.mem_append.mp hs with hs | hs
            · exact h.queue s.frag (List.mem_map_of_mem ((List.dropLast_sublist _).subset hs))
            · rw [List.mem_singleton.mp hs]
              refine ⟨(by decide : (0 : UInt32).toNat < 128), ?_⟩
              have hmss : k.mss.toNat ≤ B := h.mss_le
              show (old.data ++ buffer.take _).length ≤ B
              rw [List.length_append, List.length_take]
              omega
        · exact h

/-- `ikcp_send` cuts a message to `mss`. -/
theorem bounded_send (h : k.outgoing.Bounded B) (hB : B < 2 ^ 31) (buffer : List UInt8) (len : ℤ) :
    (k.send buffer len).2.outgoing.Bounded B := by
  have happend := bounded_sendAppend h hB (buffer.take len.toNat)
  unfold send
  dsimp only
  split_ifs with hneg hdone hmany
  · exact h
  · exact happend
  · exact happend
  · refine ⟨happend.mss_le, happend.mss_pos, happend.mtu_eq, happend.flight, ?_⟩
    intro f hf
    obtain ⟨s, hs, rfl⟩ := List.mem_map.mp hf
    rcases List.mem_append.mp hs with hs | hs
    · exact happend.queue s.frag (List.mem_map_of_mem hs)
    · have hcount : wndRcv.toNat = 128 := rfl
      have hfrag := of_mem_fragment hs (by omega)
      exact ⟨hfrag.1, hfrag.2.trans happend.mss_le⟩

/-! ### Runs -/

/-- A new block has room for 1376 bytes in a segment. -/
theorem bounded_create (conv : UInt32) : (create conv).outgoing.Bounded 1376 where
  mss_le := (by decide : (mtuDef - UInt32.ofNat overhead).toNat ≤ 1376)
  mss_pos := (by decide : 0 < (mtuDef - UInt32.ofNat overhead).toNat)
  mtu_eq := (by decide : mtuDef.toNat = overhead + (mtuDef - UInt32.ofNat overhead).toNat)
  flight := by rintro s ⟨⟩
  queue := by rintro f ⟨⟩

/-- A call sets no `mtu` with more than `B` bytes for the data. -/
def Call.WithinMtu (B : ℕ) : Call → Prop
  | .setmtu mtu => mtu < 50 ∨ mtu.toInt ≤ overhead + B
  | _ => True

/-- No `mtu` leaves room for more than this. -/
theorem Call.withinMtu (c : Call) : c.WithinMtu (2 ^ 31 - 25) := by
  have hover : overhead = 24 := rfl
  cases c with
  | setmtu mtu =>
      have hint := mtu.toInt_lt
      exact .inr (by omega)
  | _ => exact trivial

/-- `ikcp_setmtu` fails, or sets `mtu` and `mss`. -/
theorem setmtu_cases (mtu : Int32) :
    (k.setmtu mtu).2 = k ∨
      (k.setmtu mtu).2 =
          { k with mtu := mtu.toUInt32, mss := mtu.toUInt32 - UInt32.ofNat overhead } ∧
        mtu.toUInt32.toNat = mtu.toInt.toNat ∧ 50 ≤ mtu.toInt ∧
        (mtu.toUInt32 - UInt32.ofNat overhead).toNat = mtu.toInt.toNat - overhead := by
  unfold setmtu
  split
  · exact .inl rfl
  · next hge =>
      have hint : 50 ≤ mtu.toInt := not_lt.mp fun hlt => hge (Int32.lt_iff_toInt_lt.mpr hlt)
      have hpos : 0 ≤ mtu := Int32.le_iff_toInt_le.mpr (Int.le_trans (by decide) hint)
      have hnat : mtu.toUInt32.toNat = mtu.toInt.toNat := Int32.toNat_toUInt32_of_le hpos
      refine .inr ⟨rfl, hnat, hint, ?_⟩
      have hle : UInt32.ofNat overhead ≤ mtu.toUInt32 := by
        have hover : (UInt32.ofNat overhead).toNat = 24 := rfl
        rw [UInt32.le_iff_toNat_le, hnat, hover]
        omega
      rw [UInt32.toNat_sub_of_le _ _ hle, hnat]
      rfl

/-- `ikcp_setmtu` leaves the segments alone that have been cut before. -/
theorem bounded_setmtu (h : k.outgoing.Bounded B) {mtu : Int32}
    (hmtu : mtu < 50 ∨ mtu.toInt ≤ overhead + B) : (k.setmtu mtu).2.outgoing.Bounded B := by
  obtain heq | ⟨heq, hmtunat, hge, hmss⟩ := setmtu_cases (k := k) mtu
  · rw [heq]
    exact h
  · have hover : overhead = 24 := rfl
    have hle : mtu.toInt ≤ overhead + B := by
      rcases hmtu with hlt | hle
      · have := Int32.lt_iff_toInt_lt.mp hlt
        have h50 : (50 : Int32).toInt = 50 := rfl
        omega
      · exact hle
    rw [heq]
    refine ⟨?_, ?_, ?_, h.flight, h.queue⟩
    · show (mtu.toUInt32 - UInt32.ofNat overhead).toNat ≤ B
      omega
    · show 0 < (mtu.toUInt32 - UInt32.ofNat overhead).toNat
      omega
    · show mtu.toUInt32.toNat = overhead + (mtu.toUInt32 - UInt32.ofNat overhead).toNat
      omega

/-- A datagram adds nothing to what is sent. -/
theorem bounded_input (h : k.outgoing.Bounded B) (data : List UInt8) :
    (k.input data).2.outgoing.Bounded B :=
  input_invariant (I := fun k => k.outgoing.Bounded B)
    (fun {i} _ data hi hn => hi.told (inputSeg_outgoing i hn.wnd data))
    (fun sn hk => by rwa [parseFastack_outgoing])
    (fun una hk => by rwa [growCwnd_outgoing]) h data

/-- **Every call keeps the bound** that it does not raise. -/
theorem bounded_call (h : k.outgoing.Bounded B) (hB : B < 2 ^ 31) {c : Call}
    (hc : c.WithinMtu B) : (k.call c).1.outgoing.Bounded B := by
  cases c with
  | recv len => exact (recv_outgoing (k := k) len).symm ▸ h
  | send buffer len => exact bounded_send h hB buffer len
  | input data => exact bounded_input h data
  | update current =>
      obtain ⟨u, f, hupdate⟩ := update_cases (k := k) current
      have hclock : Outgoing.Bounded B
          ({ k with current := current, updated := u, tsFlush := f } : Kcp).outgoing := h
      rcases hupdate with heq | heq
      · rw [Kcp.call, heq]
        exact hclock
      · rw [Kcp.call, heq]
        exact hclock.filled flush_outgoing
  | flush => exact h.filled flush_outgoing
  | setmtu mtu => exact bounded_setmtu h hc
  | interval n => exact h
  | nodelay a b c d =>
      obtain ⟨_, _, _, _, _, heq⟩ := setNodelay_eq (k := k) a b c d
      rw [Kcp.call, heq]
      exact h
  | wndsize sndwnd rcvwnd =>
      obtain ⟨a, heq⟩ := wndsize_eq (k := k) sndwnd rcvwnd
      rw [Kcp.call, heq]
      exact h

/-! ### The flush of a call -/

/-- A block that is flushed has been updated, and has the sides of the block before the call. -/
theorem of_flushing {c : Call} {f : Kcp} (hf : k.flushing c = some f) :
    f.updated ≠ 0 ∧ f.outgoing = k.outgoing ∧ f.incoming = k.incoming ∧ k.call c = f.flush := by
  cases c with
  | flush =>
      unfold flushing at hf
      dsimp only at hf
      split at hf
      · cases hf
      · next hupdated =>
          obtain rfl := Option.some.inj hf
          exact ⟨hupdated, rfl, rfl, rfl⟩
  | update current =>
      obtain ⟨u, t, hu, hclock⟩ := setClock_eq (k := k) current
      unfold flushing at hf
      unfold call update
      dsimp only at hf ⊢
      rw [hclock] at hf ⊢
      split at hf
      · next hdue =>
          obtain rfl := Option.some.inj hf
          exact ⟨hu, rfl, rfl, if_pos hdue⟩
      · cases hf
  | _ => cases hf

/-- A call sends datagrams only by a flush. -/
theorem call_of_flushing_eq_none {c : Call} (hf : k.flushing c = none) : (k.call c).2 = [] := by
  cases c with
  | flush =>
      unfold flushing at hf
      dsimp only at hf
      split at hf
      · next hupdated =>
          rw [call, flush, if_pos hupdated]
      · cases hf
  | update current =>
      unfold flushing at hf
      unfold call update
      dsimp only at hf ⊢
      split at hf
      · cases hf
      · next hdue => rw [if_neg hdue]
  | _ => rfl

/-! ### The size of a datagram -/

open Packer

variable {p : Packer}

/-- Acknowledgements are small enough. -/
theorem flushAcks_fits {mtu : UInt32} (hmtu : overhead ≤ mtu.toNat) (acks : List (UInt32 × UInt32))
    {seg : Seg} (hp : p.Fits mtu) : (flushAcks mtu acks seg p).2.Fits mtu := by
  induction acks generalizing seg p with
  | nil => exact hp
  | cons a acks ih => exact ih (hp.put (by rw [length_encode]; exact hmtu))

/-- So are the window commands. -/
theorem flushProbe_fits (hmtu : overhead ≤ k.mtu.toNat) (ask cmd : UInt32) (seg : Seg)
    (hp : p.Fits k.mtu) : (k.flushProbe ask cmd seg p).2.Fits k.mtu := by
  unfold flushProbe
  split
  · exact hp.put (by rw [length_encode]; exact hmtu)
  · exact hp

/-- The commands of a flush keep to `mtu`. -/
theorem flushCommands_fits (hmtu : overhead ≤ k.mtu.toNat) :
    k.flushCommands.2.Fits k.mtu := by
  have hprobe : ({ k with acklist := [] } : Kcp).probeWindow.mtu = k.mtu :=
    congrArg Outgoing.mtu (probeWindow_outgoing (k := { k with acklist := [] }))
  have hacks : (flushAcks k.mtu k.acklist k.flushSeg {}).2.Fits k.mtu :=
    flushAcks_fits hmtu _ fits_empty
  unfold flushCommands
  dsimp only
  generalize ({ k with acklist := [] } : Kcp).probeWindow = k' at hprobe ⊢
  rw [← hprobe] at hmtu hacks ⊢
  exact flushProbe_fits hmtu _ _ _ (flushProbe_fits hmtu _ _ _ hacks)

/-- So does the pass over `snd_buf`, if the segments do. -/
theorem sweepLoop_fits {l : List Seg} (hl : ∀ s ∈ l, overhead + s.data.length ≤ k.mtu.toNat)
    (resent wnd : UInt32) {w : Sweep} (hw : w.packer.Fits k.mtu) :
    (k.sweepLoop resent wnd l w).2.packer.Fits k.mtu := by
  induction l generalizing w with
  | nil => exact hw
  | cons s rest ih =>
      simp only [sweepLoop]
      refine ih (fun t ht => hl t (List.mem_cons_of_mem _ ht)) ?_
      by_cases hno : k.due resent s = .no
      · rw [sweepSeg, if_pos hno]
        exact hw
      · have hdata : (k.resend s (k.due resent s)).data = s.data := by
          cases k.due resent s <;> rfl
        rw [sweepSeg, if_neg hno]
        refine hw.put ?_
        show (Seg.encode _ ++ (k.resend s (k.due resent s)).data).length ≤ k.mtu.toNat
        rw [hdata, List.length_append, length_encode]
        exact hl s List.mem_cons_self

/-- Where the data is cut to `mss`, the buffer of a flush keeps to `mtu`. -/
theorem flushed_fits (h : k.outgoing.Bounded k.mss.toNat) : k.flushed.Fits k.mtu := by
  have hmtu : k.mtu.toNat = overhead + k.mss.toNat := h.mtu_eq
  have hfilled : k.filled.mtu = k.mtu :=
    (filled_outgoing (k := k)).same.mtu
  have hcommands : k.flushCommands.2.Fits k.filled.mtu := by
    rw [hfilled]
    exact flushCommands_fits (by omega)
  have hswept : k.flushed.Fits k.filled.mtu := by
    refine sweepLoop_fits ?_ _ _ hcommands
    intro s hs
    have hseg := (h.filled filled_outgoing).flight s.core (List.mem_map_of_mem hs)
    have hlen : s.data.length ≤ k.mss.toNat := hseg.2.2.2
    rw [hfilled]
    omega
  rwa [hfilled] at hswept

/-- So do its datagrams. -/
theorem flush_fits (h : k.outgoing.Bounded k.mss.toNat) :
    ∀ d ∈ k.flush.2, 0 < d.length ∧ d.length ≤ k.mtu.toNat := by
  unfold flush
  split
  · rintro d ⟨⟩
  · exact (flushed_fits h).output.sent

/-- A call does not lower `mtu`. -/
def keepsMtu (k : Kcp) : Call → Bool
  | .setmtu mtu => decide (mtu < 50 ∨ (k.mtu.toNat : ℤ) ≤ mtu.toInt)
  | _ => true

/-- What is kept by the calls that do not lower `mtu`: all data is cut to `mss`. -/
def Cut (k : Kcp) : Prop := k.outgoing.Bounded k.mss.toNat ∧ k.mss.toNat < 2 ^ 31

/-- A larger `mtu` leaves all data cut. -/
theorem Cut.setmtu (h : k.Cut) {mtu : Int32} (hc : mtu < 50 ∨ (k.mtu.toNat : ℤ) ≤ mtu.toInt) :
    (k.setmtu mtu).2.Cut := by
  obtain ⟨hbounded, hmss⟩ := h
  have hmtu : k.mtu.toNat = overhead + k.mss.toNat := hbounded.mtu_eq
  have hover : overhead = 24 := rfl
  have hint := mtu.toInt_lt
  obtain heq | ⟨heq, -, hge, hnew⟩ := setmtu_cases (k := k) mtu
  · rw [heq]
    exact ⟨hbounded, hmss⟩
  · have hle : (k.mtu.toNat : ℤ) ≤ mtu.toInt := by
      rcases hc with hlt | hle
      · have := Int32.lt_iff_toInt_lt.mp hlt
        have h50 : (50 : Int32).toInt = 50 := rfl
        omega
      · exact hle
    have hset : (k.setmtu mtu).2.outgoing.Bounded (mtu.toInt.toNat - overhead) :=
      bounded_setmtu (hbounded.mono (by omega)) (.inr (by omega))
    have hmss' : (k.setmtu mtu).2.mss.toNat = mtu.toInt.toNat - overhead := by
      rw [heq]
      exact hnew
    rw [Cut, hmss']
    exact ⟨hset, by omega⟩

/-- So does every call that does not lower it. -/
theorem Cut.call (h : k.Cut) {c : Call} (hc : k.keepsMtu c = true) : (k.call c).1.Cut := by
  by_cases hset : ∃ mtu, c = .setmtu mtu
  · obtain ⟨mtu, rfl⟩ := hset
    exact h.setmtu (of_decide_eq_true hc)
  · have hsame : (k.call c).1.mss = k.mss := (call_same c fun mtu heq => hset ⟨mtu, heq⟩).mss
    have hwithin : c.WithinMtu k.mss.toNat := by
      cases c with
      | setmtu mtu => exact absurd ⟨mtu, rfl⟩ hset
      | _ => exact trivial
    rw [Cut, hsame]
    exact ⟨bounded_call h.1 h.2 hwithin, h.2⟩

/-- So it is in every run that does not lower `mtu`. -/
theorem cut_of_reach {conv : UInt32} (h : Lts.Reach step keepsMtu (create conv) k) : k.Cut := by
  have hmss : (mtuDef - UInt32.ofNat overhead).toNat < 2 ^ 31 := by decide
  have hcreate : (create conv).Cut := ⟨bounded_create conv, hmss⟩
  refine h.invariant Cut hcreate ?_
  intro k k' c hk hc hstep
  obtain rfl := Option.some.inj hstep
  exact hk.call hc

/-- **No datagram is larger than `mtu`**, nor is one empty, as long as `mtu` has not been lowered.
The buffer of a flush never holds more than the datagram that it becomes. -/
theorem length_le_mtu {conv : UInt32} (h : Lts.Reach step keepsMtu (create conv) k) (c : Call) :
    ∀ d ∈ (k.call c).2, 0 < d.length ∧ d.length ≤ k.mtu.toNat := by
  obtain ⟨hbounded, -⟩ := cut_of_reach h
  cases c with
  | flush => exact flush_fits hbounded
  | update current =>
      obtain ⟨u, f, hupdate⟩ := update_cases (k := k) current
      have hclock : Outgoing.Bounded k.mss.toNat
          ({ k with current := current, updated := u, tsFlush := f } : Kcp).outgoing := hbounded
      rw [Kcp.call]
      rcases hupdate with heq | heq
      · rw [heq]
        rintro d ⟨⟩
      · rw [heq]
        exact flush_fits hclock
  | _ => rintro d ⟨⟩

/-- Two segments in a datagram, and a larger `mtu` in between. -/
theorem length_le_mtu_send :
    ∃ k : Kcp, (k.call .flush).2.length = 1 ∧
      ∀ d ∈ (k.call .flush).2, 0 < d.length ∧ d.length ≤ k.mtu.toNat := by
  have hrun : ∃ k, Lts.Reach step keepsMtu (create 7) k ∧ (k.call .flush).2.length = 1 :=
    Lts.Reach.exists_of_exec [.nodelay 0 0 0 1, .update 0, .send [1, 2, 3] 3, .setmtu 1500,
      .send [4] 1] (by decide +kernel)
  obtain ⟨k, hreach, hlen⟩ := hrun
  exact ⟨k, hlen, length_le_mtu hreach .flush⟩

/-- **No flush goes behind its block** as long as `mtu` has not been lowered, and is below 2^30. -/
theorem inBounds_of_reach {conv : UInt32} (h : Lts.Reach step keepsMtu (create conv) k)
    (hmtu : k.mtu.toNat < 2 ^ 30) (c : Call) : k.inBounds c = true := by
  obtain ⟨hbounded, -⟩ := cut_of_reach h
  unfold inBounds
  cases hf : k.flushing c with
  | none => rfl
  | some f =>
      obtain ⟨-, hout, -, -⟩ := of_flushing hf
      have hmss : f.mss = k.mss := congrArg Outgoing.mss hout
      have hsame : f.mtu = k.mtu := congrArg Outgoing.mtu hout
      have hcut : f.outgoing.Bounded f.mss.toNat := by rwa [hout, hmss]
      exact (flushed_fits hcut).within (by rwa [hsame])

/-! ### What the other end reads -/

/-- The data of a segment has a length that `ikcp_input` takes, whatever `mtu` has been. -/
theorem bounded_of_run {conv : UInt32} {calls : List Call}
    (hrun : (create conv).run calls = some k) : k.outgoing.Bounded (2 ^ 31 - 25) := by
  have hover : overhead = 24 := rfl
  have hcreate : (create conv).outgoing.Bounded (2 ^ 31 - 25) :=
    (bounded_create conv).mono (by omega)
  exact run_invariant (I := fun k => k.outgoing.Bounded (2 ^ 31 - 25)) hrun hcreate
    fun {_ c} _ hk => bounded_call hk (by omega) c.withinMtu

/-- What a flush sends is valid for the other end. -/
theorem valid_of_mem_flushSegs (h : k.outgoing.Bounded B) (hB : B < 2 ^ 31) {s : Seg}
    (hs : s ∈ k.flushSegs) : s.Valid k.conv := by
  obtain ⟨-, ⟨hconv, -, hdata, hcmd⟩ | hflight⟩ := of_mem_flushSegs hs
  · refine ⟨hconv, ?_, by rw [hdata]; exact Nat.two_pow_pos 31⟩
    rcases hcmd with ⟨hack, -⟩ | hask | htell
    · exact .inr (.inl hack)
    · exact .inr (.inr (.inl hask))
    · exact .inr (.inr (.inr htell))
  · obtain ⟨hconv, hcmd, -, hlen⟩ := (h.filled filled_outgoing).flight _ hflight
    have hsettings := (filled_outgoing (k := k)).same.conv
    exact ⟨hconv.trans hsettings, .inl hcmd, Nat.lt_of_le_of_lt hlen hB⟩

/-- **What a call sends is read back.** In every run, the datagrams of a call are the segments of
its flush, each once, cut into groups; and a block of the same connection processes a datagram
segment by segment, to its end. -/
theorem input_datagrams {conv : UInt32} {calls : List Call} {c : Call} {f : Kcp}
    {datagrams : List Datagram} (hrun : (create conv).run calls = some k)
    (hf : k.flushing c = some f) (hsent : k.outputs c = some datagrams) :
    ∃ groups : List (List Seg), datagrams = groups.map join ∧ groups.flatten = f.flushSegs ∧
      ∀ g ∈ groups, ∀ r : Kcp, r.conv = f.conv → r.input (join g) = (0, r.inputSegs g) := by
  obtain ⟨hupdated, hout, -, hcall⟩ := of_flushing hf
  obtain ⟨groups, hne, hgroups, hflat⟩ := flush_packs hupdated
  have hbounded : f.outgoing.Bounded (2 ^ 31 - 25) := hout ▸ bounded_of_run hrun
  obtain ⟨-, hsent⟩ := Option.ite_none_right_eq_some.mp hsent
  obtain rfl := Option.some.inj hsent
  refine ⟨groups, by rw [hcall, hgroups], hflat, ?_⟩
  intro g hg r hr
  refine input_join (hne g hg) fun s hs => ?_
  rw [hr]
  exact valid_of_mem_flushSegs hbounded (by omega)
    (hflat ▸ List.mem_flatten.mpr ⟨g, hg, hs⟩)

/-- The datagram of a message. -/
theorem input_datagrams_send :
    ∃ (f : Kcp) (datagrams : List Datagram) (groups : List (List Seg)), datagrams.length = 1 ∧
      datagrams = groups.map join ∧ groups.flatten = f.flushSegs ∧
      ∀ g ∈ groups, ∀ r : Kcp, r.conv = f.conv → r.input (join g) = (0, r.inputSegs g) := by
  have hrun : ((create 7).run [.nodelay 0 0 0 1, .update 0, .send [1, 2, 3] 3]).any fun k =>
      (k.flushing .flush).isSome && (k.outputs .flush).any fun l => l.length == 1 := by
    decide +kernel
  obtain ⟨k, hk, hflush⟩ := (Option.any_eq_true _ _).mp hrun
  obtain ⟨hf, hsent⟩ := (Bool.and_eq_true _ _).mp hflush
  obtain ⟨f, hf⟩ := Option.isSome_iff_exists.mp hf
  obtain ⟨datagrams, hsent, hlen⟩ := (Option.any_eq_true _ _).mp hsent
  obtain ⟨groups, hgroups⟩ := input_datagrams hk hf hsent
  exact ⟨f, datagrams, groups, eq_of_beq hlen, hgroups⟩

end Kcp

end ArchNet.Udp

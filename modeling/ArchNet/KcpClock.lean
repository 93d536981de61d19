import ArchNet.KcpDatagrams

/-!
# The Clock of a Control Block

A block has no timer: it is told the time by `ikcp_update`, and `ikcp_check` tells when to do so
next. The times wrap around after 49 days, so that all of them are compared by their distance.

* `Clock` — the time of the last update, and that of the next flush.
* `Limits` — the numbers that the timers and the windows are computed from.

## Main results

* `limits_after`: **the limits hold in every run**, whatever round-trip times are measured.
* `update_of_lt_check`: up to the time that `ikcp_check` tells, an update does nothing and no
  segment is due.
* `flushing_update_eq_none_iff`: when an update flushes.
* `flushing_after_interval`: **no update comes an interval after a flush without a flush.**
-/

open Serial

namespace ArchNet.Udp

/-- The time of the last update, whether there was one, and the time of the next flush. -/
structure Clock where
  current : UInt32
  updated : UInt32
  tsFlush : UInt32

/-- What the timers and the windows are computed from. -/
structure Limits where
  rxMinrto : Int32
  rxRto : Int32
  ssthresh : UInt32
  sndWnd : UInt32
  interval : UInt32
  probeWait : UInt32

/-- The clock with the limits. -/
structure Timing where
  clock : Clock
  limits : Limits

/-- The timing of a block. -/
def Kcp.timing (k : Kcp) : Timing where
  clock := ⟨k.current, k.updated, k.tsFlush⟩
  limits := ⟨k.rxMinrto, k.rxRto, k.ssthresh, k.sndWnd, k.interval, k.probeWait⟩

/-- The bounds of the limits. -/
structure Limits.Ok (t : Limits) : Prop where
  minrto : t.rxMinrto = rtoNdl.toInt32 ∨ t.rxMinrto = rtoMin.toInt32
  rto_ge : 30 ≤ t.rxRto.toInt
  rto_le : t.rxRto.toInt ≤ 60000
  ssthresh : 2 ≤ t.ssthresh.toNat
  sndWnd : t.sndWnd ≠ 0
  interval_ge : 10 ≤ t.interval.toNat
  interval_le : t.interval.toNat ≤ 5000
  probeWait : t.probeWait = 0 ∨ 7000 ≤ t.probeWait.toNat ∧ t.probeWait.toNat ≤ 120000

namespace Kcp

variable {k : Kcp}

/-! ### What leaves the timing alone -/

/-- `ikcp_shrink_buf` sets `snd_una` alone. -/
@[simp] theorem shrinkBuf_timing : k.shrinkBuf.timing = k.timing := by
  unfold shrinkBuf
  split <;> rfl

/-- `ikcp_parse_ack` takes a segment out of `snd_buf`. -/
@[simp] theorem parseAck_timing (sn : UInt32) : (k.parseAck sn).timing = k.timing := by
  unfold parseAck
  split
  · rfl
  · split <;> rfl

/-- `ikcp_parse_una` takes out several. -/
@[simp] theorem parseUna_timing (una : UInt32) : (k.parseUna una).timing = k.timing := rfl

/-- `ikcp_parse_fastack` counts in the segments. -/
@[simp] theorem parseFastack_timing (sn : UInt32) : (k.parseFastack sn).timing = k.timing := by
  unfold parseFastack
  split <;> rfl

/-- The congestion window is no part of the timing: `ssthresh` stays when it grows. -/
@[simp] theorem growCwnd_timing (una : UInt32) : (k.growCwnd una).timing = k.timing := by
  unfold growCwnd timing
  split_ifs <;> rfl

/-- What moves on to `rcv_queue` has no timer. -/
theorem moveLoop_timing (l : List Seg) : (moveLoop l k).timing = k.timing := by
  induction l generalizing k with
  | nil => rfl
  | cons s rest ih =>
      rw [moveLoop]
      split
      · rw [ih]
        rfl
      · rfl

/-- The same of the whole loop. -/
@[simp] theorem moveReady_timing : k.moveReady.timing = k.timing := moveLoop_timing _

/-- Nor has what arrives. -/
@[simp] theorem parseData_timing (s : Seg) : (k.parseData s).timing = k.timing := by
  unfold parseData insertData
  split
  · rfl
  · rw [moveReady_timing]
    split <;> rfl

/-- A push leaves the timing alone. -/
@[simp] theorem inputPush_timing (h : Header) (data : List UInt8) :
    (k.inputPush h data).timing = k.timing := by
  unfold inputPush
  split_ifs
  · exact parseData_timing _
  · rfl
  · rfl

/-- So does the head of a segment. -/
@[simp] theorem inputHead_timing (h : Header) : (k.inputHead h).timing = k.timing := by
  rw [inputHead, shrinkBuf_timing, parseUna_timing]
  rfl

/-- So does `ikcp_recv`. -/
theorem recv_timing (len : ℤ) : (k.recv len).2.2.timing = k.timing := by
  have htell {k : Kcp} (recover : Bool) : (k.tellWindow recover).timing = k.timing := by
    unfold tellWindow
    split <;> rfl
  have hdrop : (k.dropMessage len).timing = k.timing := by
    unfold dropMessage
    split <;> rfl
  unfold recv
  split_ifs
  · rfl
  · rfl
  · rfl
  · dsimp only
    rw [htell, moveReady_timing, hdrop]

/-- So does `ikcp_send`. -/
theorem send_timing (buffer : List UInt8) (len : ℤ) : (k.send buffer len).2.timing = k.timing := by
  obtain ⟨l, n, heq, -⟩ := send_eq (k := k) buffer len
  rw [heq]
  rfl

/-- Numbering reads the clock, and sets nothing of it. -/
theorem fillLoop_timing (cwnd wnd : UInt32) (l : List Seg) :
    (fillLoop cwnd wnd l k).timing = k.timing := by
  induction l generalizing k with
  | nil => rfl
  | cons s rest ih =>
      rw [fillLoop]
      split
      · rw [ih]
        rfl
      · rfl

/-- So does the pass over `snd_buf`: the times that it sets are those of the segments. -/
theorem sweep_timing (wnd : UInt32) (p : Packer) : (k.sweep wnd p).1.timing = k.timing := rfl

/-! ### The limits -/

/-- `_ibound_` keeps to its bounds, if they are in order. -/
theorem ibound_bounds {lower upper : UInt32} (middle : UInt32) (h : lower ≤ upper) :
    lower ≤ ibound lower middle upper ∧ ibound lower middle upper ≤ upper := by
  have hmax : lower ≤ imax lower middle := by
    unfold imax
    split
    · exact UInt32.le_refl _
    · next hlt => exact UInt32.le_of_lt (UInt32.not_le.mp hlt)
  refine ⟨?_, imin_le_right _ _⟩
  unfold ibound imin
  split
  · exact hmax
  · exact h

/-- A number below 2^31 is the same as an `int`. -/
theorem toInt_toInt32 {n : UInt32} (h : n.toNat < 2 ^ 31) : n.toInt32.toInt = n.toNat :=
  BitVec.toInt_eq_toNat_of_lt (show 2 * n.toNat < 2 ^ 32 by omega)

/-- No threshold is below `IKCP_THRESH_MIN`. -/
theorem threshold_ge (n : UInt32) : 2 ≤ (threshold n).toNat := by
  unfold threshold
  split
  · exact Nat.le_refl 2
  · next hge => exact UInt32.le_iff_toNat_le.mp (UInt32.not_lt.mp hge)

/-- The timeout that a round-trip time gives is within the limits. -/
theorem limits_updateAck (h : k.timing.limits.Ok) (rtt : Int32) :
    (k.updateAck rtt).timing.limits.Ok := by
  have hmin : 30 ≤ k.rxMinrto.toUInt32.toNat ∧ k.rxMinrto.toUInt32 ≤ rtoMax := by
    rcases h.minrto with heq | heq <;>
      (have hmin : k.rxMinrto = _ := heq
       rw [hmin]
       decide)
  have hbounds (rto : UInt32) : 30 ≤ (ibound k.rxMinrto.toUInt32 rto rtoMax).toInt32.toInt ∧
      (ibound k.rxMinrto.toUInt32 rto rtoMax).toInt32.toInt ≤ 60000 := by
    obtain ⟨hge, hle⟩ := ibound_bounds rto hmin.2
    have hge' := UInt32.le_iff_toNat_le.mp hge
    have hle' : (ibound k.rxMinrto.toUInt32 rto rtoMax).toNat ≤ 60000 :=
      UInt32.le_iff_toNat_le.mp hle
    rw [toInt_toInt32 (by omega)]
    omega
  exact ⟨h.minrto, (hbounds _).1, (hbounds _).2, h.ssthresh, h.sndWnd, h.interval_ge, h.interval_le,
    h.probeWait⟩

/-- Only an acknowledgement measures a round-trip time. -/
theorem limits_inputSeg {i : Input} (h : i.kcp.timing.limits.Ok) (hd : Header)
    (data : List UInt8) : (inputSeg i hd data).kcp.timing.limits.Ok := by
  have hhead : (i.kcp.inputHead hd).timing.limits.Ok := by rwa [inputHead_timing]
  rw [inputSeg_kcp]
  split_ifs
  · rw [shrinkBuf_timing, parseAck_timing]
    unfold ackTime
    split
    · exact limits_updateAck hhead _
    · exact hhead
  · rwa [inputPush_timing]
  · exact hhead
  · exact hhead

/-- A datagram keeps the limits. -/
theorem limits_input (h : k.timing.limits.Ok) (data : List UInt8) :
    (k.input data).2.timing.limits.Ok :=
  input_invariant (I := fun k => k.timing.limits.Ok) (fun data hi _ => limits_inputSeg hi _ data)
    (fun sn hk => by rwa [parseFastack_timing]) (fun una hk => by rwa [growCwnd_timing]) h data

/-- The next wait, which is half as long again. -/
theorem probeWait_bounds {wait : UInt32} (hge : 7000 ≤ wait.toNat) (hle : wait.toNat ≤ 120000) :
    7000 ≤ (if wait + wait / 2 > probeLimit then probeLimit else wait + wait / 2).toNat ∧
      (if wait + wait / 2 > probeLimit then probeLimit else wait + wait / 2).toNat ≤ 120000 := by
  have hsum : (wait + wait / 2).toNat = wait.toNat + wait.toNat / 2 := by
    have htwo : (2 : UInt32).toNat = 2 := rfl
    rw [UInt32.toNat_add, UInt32.toNat_div, htwo]
    exact Nat.mod_eq_of_lt (by omega)
  have hlimit : probeLimit.toNat = 120000 := rfl
  split
  · omega
  · next hnot =>
      have hle := UInt32.le_iff_toNat_le.mp (UInt32.not_lt.mp hnot)
      omega

/-- The waits before the remote window is asked for grow up to two minutes. -/
theorem limits_probeWindow (h : k.timing.limits.Ok) : k.probeWindow.timing.limits.Ok := by
  have hset (wait ts probe : UInt32)
      (hwait : wait = 0 ∨ 7000 ≤ wait.toNat ∧ wait.toNat ≤ 120000) :
      ({ k with probeWait := wait, tsProbe := ts, probe := probe } : Kcp).timing.limits.Ok :=
    ⟨h.minrto, h.rto_ge, h.rto_le, h.ssthresh, h.sndWnd, h.interval_ge, h.interval_le, hwait⟩
  have hinit : probeInit.toNat = 7000 := rfl
  have hwait : k.probeWait = 0 ∨ 7000 ≤ k.probeWait.toNat ∧ k.probeWait.toNat ≤ 120000 :=
    h.probeWait
  unfold probeWindow
  split
  · split
    · exact hset _ _ k.probe (.inr (by decide))
    · next hzero =>
        obtain ⟨hge, hle⟩ := hwait.resolve_left hzero
        split
        · have hkeep : ¬ k.probeWait < probeInit := by
            rw [UInt32.lt_iff_toNat_lt]
            omega
          dsimp only
          rw [if_neg hkeep]
          exact hset _ _ _ (.inr (probeWait_bounds hge hle))
        · exact h
  · exact hset 0 0 k.probe (.inl rfl)

/-- What a flush sets after the data is a threshold. -/
theorem limits_adjustCwnd (h : k.timing.limits.Ok) (cwnd resent : UInt32) (change : ℕ)
    (lost : Bool) : (k.adjustCwnd cwnd resent change lost).timing.limits.Ok := by
  have hopen {k : Kcp} (hk : k.timing.limits.Ok) : k.openWindow.timing.limits.Ok := by
    unfold openWindow
    split
    · exact hk
    · exact hk
  have hchange {k : Kcp} (hk : k.timing.limits.Ok) : (k.afterChange resent).timing.limits.Ok :=
    ⟨hk.minrto, hk.rto_ge, hk.rto_le, threshold_ge _, hk.sndWnd, hk.interval_ge, hk.interval_le,
      hk.probeWait⟩
  have hloss {k : Kcp} (hk : k.timing.limits.Ok) : (k.afterLoss cwnd).timing.limits.Ok :=
    ⟨hk.minrto, hk.rto_ge, hk.rto_le, threshold_ge _, hk.sndWnd, hk.interval_ge, hk.interval_le,
      hk.probeWait⟩
  unfold adjustCwnd
  dsimp only
  refine hopen ?_
  split_ifs
  · exact hloss (hchange h)
  · exact hloss h
  · exact hchange h
  · exact h

/-- A flush keeps the limits. -/
theorem limits_flush (h : k.timing.limits.Ok) : k.flush.1.timing.limits.Ok := by
  unfold flush
  split
  · exact h
  · refine limits_adjustCwnd ?_ _ _ _ _
    rw [sweep_timing, fill, fillLoop_timing]
    exact limits_probeWindow (k := { k with acklist := [] }) h

/-- `ikcp_interval` keeps to its bounds. -/
theorem clampInterval_bounds (n : Int32) :
    10 ≤ (clampInterval n).toNat ∧ (clampInterval n).toNat ≤ 5000 := by
  unfold clampInterval
  split_ifs with hbig hsmall
  · decide
  · decide
  · have hle : n.toInt ≤ 5000 := not_lt.mp fun hlt => hbig (Int32.lt_iff_toInt_lt.mpr hlt)
    have hge : 10 ≤ n.toInt := not_lt.mp fun hlt => hsmall (Int32.lt_iff_toInt_lt.mpr hlt)
    have hpos : 0 ≤ n := Int32.le_iff_toInt_le.mpr (Int.le_trans (by decide) hge)
    have hnat : n.toUInt32.toNat = n.toInt.toNat := Int32.toNat_toUInt32_of_le hpos
    omega

/-- `ikcp_nodelay` sets one of the two least timeouts, and the interval within its bounds. -/
theorem limits_setNodelay (h : k.timing.limits.Ok) (nodelay interval resend nc : Int32) :
    (k.setNodelay nodelay interval resend nc).timing.limits.Ok := by
  have hminrto {k : Kcp} (hk : k.timing.limits.Ok) (n : UInt32) {m : Int32}
      (hm : m = rtoNdl.toInt32 ∨ m = rtoMin.toInt32) :
      ({ k with nodelay := n, rxMinrto := m } : Kcp).timing.limits.Ok :=
    ⟨hm, hk.rto_ge, hk.rto_le, hk.ssthresh, hk.sndWnd, hk.interval_ge, hk.interval_le,
      hk.probeWait⟩
  have hinterval {k : Kcp} (hk : k.timing.limits.Ok) :
      (k.setInterval interval).timing.limits.Ok :=
    ⟨hk.minrto, hk.rto_ge, hk.rto_le, hk.ssthresh, hk.sndWnd, (clampInterval_bounds _).1,
      (clampInterval_bounds _).2, hk.probeWait⟩
  have hfirst : (if nodelay ≥ 0 then
      { k with
        nodelay := nodelay.toUInt32
        rxMinrto := if nodelay ≠ 0 then rtoNdl.toInt32 else rtoMin.toInt32 }
      else k).timing.limits.Ok := by
    split
    · refine hminrto h _ ?_
      split
      · exact .inl rfl
      · exact .inr rfl
    · exact h
  unfold setNodelay
  dsimp only
  generalize (if nodelay ≥ 0 then _ else k : Kcp) = k₁ at hfirst ⊢
  have hsecond : (if interval ≥ 0 then k₁.setInterval interval else k₁).timing.limits.Ok := by
    split
    · exact hinterval hfirst
    · exact hfirst
  generalize (if interval ≥ 0 then k₁.setInterval interval else k₁) = k₂ at hsecond ⊢
  split_ifs <;> exact hsecond

/-- `ikcp_wndsize` sets no send window of zero. -/
theorem limits_wndsize (h : k.timing.limits.Ok) (sndwnd rcvwnd : Int32) :
    (k.wndsize sndwnd rcvwnd).timing.limits.Ok := by
  have hset {k : Kcp} (hk : k.timing.limits.Ok) {n : UInt32} (hn : n ≠ 0) :
      ({ k with sndWnd := n } : Kcp).timing.limits.Ok :=
    ⟨hk.minrto, hk.rto_ge, hk.rto_le, hk.ssthresh, hn, hk.interval_ge, hk.interval_le,
      hk.probeWait⟩
  have hpos {n : Int32} (hn : n > 0) : n.toUInt32 ≠ 0 := by
    intro hzero
    have hint : 0 < n.toInt := Int32.lt_iff_toInt_lt.mp hn
    have hnat : n.toUInt32.toNat = n.toInt.toNat := Int32.toNat_toUInt32_of_le (Int32.le_of_lt hn)
    rw [hzero, UInt32.toNat_zero] at hnat
    omega
  unfold wndsize
  dsimp only
  split_ifs with hr hs hs
  · exact hset h (hpos hs)
  · exact h
  · exact hset h (hpos hs)
  · exact h

/-- **Every call keeps the limits.** -/
theorem limits_call (h : k.timing.limits.Ok) (c : Call) : (k.call c).1.timing.limits.Ok := by
  cases c with
  | recv len =>
      have heq := recv_timing (k := k) len
      rw [call]
      rwa [heq]
  | send buffer len =>
      have heq := send_timing (k := k) buffer len
      rw [call]
      rwa [heq]
  | input data => exact limits_input h data
  | update current =>
      obtain ⟨u, f, hupdate⟩ := update_cases (k := k) current
      have hclock : ({ k with current := current, updated := u, tsFlush := f } :
          Kcp).timing.limits.Ok := h
      rcases hupdate with heq | heq
      · rw [call, heq]
        exact hclock
      · rw [call, heq]
        exact limits_flush hclock
  | flush => exact limits_flush h
  | setmtu mtu =>
      obtain ⟨a, b, heq⟩ := setmtu_eq (k := k) mtu
      rw [call, heq]
      exact h
  | interval n =>
      exact ⟨h.minrto, h.rto_ge, h.rto_le, h.ssthresh, h.sndWnd, (clampInterval_bounds _).1,
        (clampInterval_bounds _).2, h.probeWait⟩
  | nodelay a b c d => exact limits_setNodelay h a b c d
  | wndsize sndwnd rcvwnd => exact limits_wndsize h sndwnd rcvwnd

/-- A new block has the default limits. -/
theorem limits_create (conv : UInt32) : (create conv).timing.limits.Ok where
  minrto := .inr rfl
  rto_ge := (by decide : (30 : ℤ) ≤ rtoDef.toInt32.toInt)
  rto_le := (by decide : rtoDef.toInt32.toInt ≤ (60000 : ℤ))
  ssthresh := (by decide : 2 ≤ threshInit.toNat)
  sndWnd := (by decide : wndSnd ≠ 0)
  interval_ge := (by decide : 10 ≤ intervalDef.toNat)
  interval_le := (by decide : intervalDef.toNat ≤ 5000)
  probeWait := .inl rfl

/-- **The limits hold in every run.** Whatever is acknowledged and when, a timeout begins at 30
milliseconds or more and at a minute or less; a flush is due every 10 to 5000 milliseconds; and a
closed remote window is asked for after 7 to 120 seconds. -/
theorem limits_after {conv : UInt32} {calls : List Call} (hrun : (create conv).run calls = some k) :
    k.timing.limits.Ok :=
  run_invariant (I := fun k => k.timing.limits.Ok) hrun (limits_create conv)
    fun {_ c} _ hk => limits_call hk c

/-- A message that is acknowledged after more than a minute. -/
theorem limits_after_ack :
    ∃ k : Kcp, k.rxSrtt = 70000 ∧ k.rxRto = 60000 ∧ k.timing.limits.Ok := by
  have hrun : ((create 7).run
      [.send [1, 2, 3] 3, .update 0, .update 100, .update 70100,
        .input [7, 0, 0, 0, 82, 0, 128, 0, 100, 0, 0, 0, 0, 0, 0, 0, 1, 0, 0, 0, 0, 0, 0, 0]]).any
      fun k => k.rxSrtt == 70000 && k.rxRto == 60000 := by
    decide +kernel
  obtain ⟨k, hk, htest⟩ := (Option.any_eq_true _ _).mp hrun
  obtain ⟨hsrtt, hrto⟩ := (Bool.and_eq_true _ _).mp htest
  exact ⟨k, eq_of_beq hsrtt, eq_of_beq hrto, limits_after hk⟩

/-! ### When an update flushes -/

/-- A time has no distance from itself. -/
theorem itimediff_self (t : UInt32) : itimediff t t = 0 := by
  have hlt := offset_self t
  rw [itimediff, dist_eq_offset t, hlt]
  rfl

/-- The first update, one at a time far from the next flush, and one near to it. -/
theorem setClock_cases (t : UInt32) :
    (k.updated = 0 ∧ k.setClock t = { k with current := t, updated := 1, tsFlush := t }) ∨
    (k.updated ≠ 0 ∧ far t k.tsFlush ∧ k.setClock t = { k with current := t, tsFlush := t }) ∨
    (k.updated ≠ 0 ∧ ¬ far t k.tsFlush ∧ k.setClock t = { k with current := t }) := by
  have hnear : ¬ far t t := by
    rw [far, itimediff_self]
    omega
  unfold setClock
  dsimp only
  by_cases hupdated : k.updated = 0
  · rw [if_pos hupdated]
    exact .inl ⟨hupdated, if_neg hnear⟩
  · rw [if_neg hupdated]
    by_cases hfar : far t k.tsFlush
    · exact .inr (.inl ⟨hupdated, hfar, if_pos hfar⟩)
    · exact .inr (.inr ⟨hupdated, hfar, if_neg hfar⟩)

/-- **When an update flushes**: always, but for the ten seconds before the flush that is due. -/
theorem flushing_update_eq_none_iff (t : UInt32) :
    k.flushing (.update t) = none ↔
      k.updated ≠ 0 ∧ -10000 ≤ itimediff t k.tsFlush ∧ itimediff t k.tsFlush < 0 := by
  have hself := itimediff_self t
  unfold flushing
  dsimp only
  obtain ⟨hupdated, hclock⟩ | ⟨hupdated, hfar, hclock⟩ | ⟨hupdated, hfar, hclock⟩ :=
    setClock_cases (k := k) t <;> rw [hclock]
  · rw [if_pos hself.ge]
    exact ⟨fun h => (Option.some_ne_none _ h).elim, fun h => absurd hupdated h.1⟩
  · rw [if_pos hself.ge]
    unfold far at hfar
    exact ⟨fun h => (Option.some_ne_none _ h).elim, fun h => by omega⟩
  · unfold far at hfar
    dsimp only
    split
    · exact ⟨fun h => (Option.some_ne_none _ h).elim, fun h => by omega⟩
    · exact ⟨fun _ => ⟨hupdated, by omega, by omega⟩, fun _ => rfl⟩

/-- An update that does not flush sets the clock. -/
theorem update_of_near {t : UInt32} (hupdated : k.updated ≠ 0)
    (hge : -10000 ≤ itimediff t k.tsFlush) (hlt : itimediff t k.tsFlush < 0) :
    k.update t = ({ k with current := t }, []) := by
  have hclock : k.setClock t = { k with current := t } := by
    obtain ⟨hzero, -⟩ | ⟨-, hfar, -⟩ | ⟨-, -, hclock⟩ := setClock_cases (k := k) t
    · exact absurd hzero hupdated
    · unfold far at hfar
      omega
    · exact hclock
  unfold update
  dsimp only
  rw [hclock]
  exact if_neg (not_le.mpr hlt)

/-! ### What `ikcp_check` tells -/

/-- The loop of `ikcp_check` finds the least time, which no segment is before. -/
theorem le_nextPacket {current : UInt32} {l : List Seg} {tm tmPacket : ℤ}
    (h : nextPacket current l tm = some tmPacket) :
    tmPacket ≤ tm ∧ ∀ s ∈ l, tmPacket ≤ itimediff s.resendts current := by
  induction l generalizing tm with
  | nil =>
      obtain rfl := Option.some.inj h
      exact ⟨Int.le_refl _, by rintro s ⟨⟩⟩
  | cons s rest ih =>
      rw [nextPacket] at h
      split at h
      · cases h
      · obtain ⟨hle, hrest⟩ := ih h
        split at hle
        · refine ⟨by omega, ?_⟩
          intro t ht
          rcases List.mem_cons.mp ht with rfl | ht
          · exact hle
          · exact hrest t ht
        · refine ⟨hle, ?_⟩
          intro t ht
          rcases List.mem_cons.mp ht with rfl | ht
          · omega
          · exact hrest t ht

/-- It is a time to come, as a segment that is due ends the loop. -/
theorem nextPacket_pos {current : UInt32} {l : List Seg} {tm tmPacket : ℤ} (htm : 0 < tm)
    (h : nextPacket current l tm = some tmPacket) : 0 < tmPacket := by
  induction l generalizing tm with
  | nil =>
      obtain rfl := Option.some.inj h
      exact htm
  | cons s rest ih =>
      rw [nextPacket] at h
      split at h
      · cases h
      · refine ih ?_ h
        split <;> omega

/-- A wait is cut to the interval. -/
theorem clampWait_le {m : ℤ} (hpos : 0 ≤ m) (hlt : m < 2 ^ 32) (interval : UInt32) :
    ((if UInt32.ofInt m ≥ interval then interval else UInt32.ofInt m).toNat : ℤ) ≤ m := by
  have hnat : ((UInt32.ofInt m).toNat : ℤ) = m := by
    rw [UInt32.ofInt, UInt32.toNat_ofNat']
    omega
  split
  · next hge =>
      have hle := UInt32.le_iff_toNat_le.mp hge
      omega
  · exact hnat.le

/-- `ikcp_check` tells no time after the next flush, or after the time of a segment. -/
theorem check_cases (current : UInt32) :
    k.check current = current ∨
      ∃ wait : UInt32, k.check current = current + wait ∧ k.updated ≠ 0 ∧
        ¬ far current k.tsFlush ∧ (wait.toNat : ℤ) ≤ itimediff k.tsFlush current ∧
        ∀ s ∈ k.sndBuf, (wait.toNat : ℤ) ≤ itimediff s.resendts current := by
  unfold check
  split
  · exact .inl rfl
  · next hupdated =>
      dsimp only
      by_cases hfar : far current k.tsFlush
      · rw [if_pos hfar, if_pos (itimediff_self current).ge]
        exact .inl rfl
      · rw [if_neg hfar]
        split
        · exact .inl rfl
        · next hnot =>
            have hswap : itimediff k.tsFlush current = -itimediff current k.tsFlush := by
              unfold far at hfar
              exact dist_swap (by unfold itimediff at hfar; omega)
            split
            · exact .inl rfl
            · next tmPacket hpacket =>
                obtain ⟨hle, hall⟩ := le_nextPacket hpacket
                have hpos := nextPacket_pos (by omega) hpacket
                have hmin : (if tmPacket < itimediff k.tsFlush current then tmPacket
                    else itimediff k.tsFlush current) ≤ tmPacket ∧
                    (if tmPacket < itimediff k.tsFlush current then tmPacket
                      else itimediff k.tsFlush current) ≤ itimediff k.tsFlush current ∧
                    0 < (if tmPacket < itimediff k.tsFlush current then tmPacket
                      else itimediff k.tsFlush current) := by
                  split <;> omega
                generalize (if tmPacket < itimediff k.tsFlush current then tmPacket
                  else itimediff k.tsFlush current) = tm at hmin ⊢
                have hwait := clampWait_le (m := tm) (by omega) (by omega) k.interval
                exact .inr ⟨_, rfl, hupdated, hfar, by omega,
                  fun s hs => by have := hall s hs; omega⟩

/-- **Up to the time that `ikcp_check` tells, an update does nothing** but set the clock, and no
segment is due. -/
theorem update_of_lt_check {current d : UInt32} (hd : d < k.check current - current) :
    k.update (current + d) = ({ k with current := current + d }, []) ∧
      ∀ s ∈ k.sndBuf, itimediff (current + d) s.resendts < 0 := by
  obtain heq | ⟨wait, heq, hupdated, hfar, hflush, hall⟩ := check_cases (k := k) current
  · rw [heq, UInt32.sub_self] at hd
    exact absurd hd UInt32.not_lt_zero
  · have hlt : d.toNat < wait.toNat := by
      have hsub : current + wait - current = wait := by grind
      rw [heq, hsub] at hd
      exact UInt32.lt_iff_toNat_lt.mp hd
    -- a time that is `wait` or more after `current` has not come
    have hahead {t : UInt32} (ht : (wait.toNat : ℤ) ≤ itimediff t current) :
        itimediff (current + d) t = (d.toNat : ℤ) - itimediff t current := by
      have hoffset := offset_of_dist_nonneg (a := t) (c := current)
        (by unfold itimediff at ht; omega)
      have hnear := dist_nonneg_iff.mp (show 0 ≤ dist t current by unfold itimediff at ht; omega)
      unfold itimediff at ht ⊢
      rw [dist_of_offset (c := current) (by rw [offset_add]; omega) (by rw [offset_add]; omega),
        offset_add, hoffset]
    have hdiff := hahead hflush
    have hswap : itimediff k.tsFlush current = -itimediff current k.tsFlush := by
      unfold far at hfar
      exact dist_swap (by unfold itimediff at hfar; omega)
    unfold far at hfar
    refine ⟨update_of_near hupdated (by omega) (by omega), ?_⟩
    intro s hs
    have hwait := hall s hs
    have hseg := hahead hwait
    omega

/-- A message in flight, halfway to the next flush. -/
theorem update_of_lt_check_flight :
    ∃ k : Kcp, k.sndBuf.length = 1 ∧ k.update (100 + 50) = ({ k with current := 100 + 50 }, []) ∧
      ∀ s ∈ k.sndBuf, itimediff (100 + 50) s.resendts < 0 := by
  have hrun : ((create 7).run [.send [1, 2, 3] 3, .update 0, .update 100]).any fun k =>
      k.sndBuf.length == 1 && decide (50 < k.check 100 - 100) := by
    decide +kernel
  obtain ⟨k, -, htest⟩ := (Option.any_eq_true _ _).mp hrun
  obtain ⟨hflight, hcheck⟩ := (Bool.and_eq_true _ _).mp htest
  exact ⟨k, eq_of_beq hflight, update_of_lt_check (of_decide_eq_true hcheck)⟩

/-! ### The flush after a flush -/

/-- A segment that comes does nothing to the clock. -/
theorem inputSeg_clock (i : Input) (h : Header) (data : List UInt8) :
    (inputSeg i h data).kcp.timing.clock = i.kcp.timing.clock := by
  have hack {k : Kcp} (ts : UInt32) : (k.ackTime ts).timing.clock = k.timing.clock := by
    unfold ackTime
    split <;> rfl
  rw [inputSeg_kcp]
  split_ifs
  · rw [shrinkBuf_timing, parseAck_timing, hack, inputHead_timing]
  · rw [inputPush_timing, inputHead_timing]
  · exact congrArg Timing.clock (inputHead_timing _)
  · rw [inputHead_timing]

/-- Nor does a flush. -/
theorem flush_clock : k.flush.1.timing.clock = k.timing.clock := by
  have hprobe {k : Kcp} : k.probeWindow.timing.clock = k.timing.clock := by
    unfold probeWindow timing
    split_ifs <;> rfl
  have hadjust {k : Kcp} (cwnd resent : UInt32) (change : ℕ) (lost : Bool) :
      (k.adjustCwnd cwnd resent change lost).timing.clock = k.timing.clock := by
    have hopen {k : Kcp} : k.openWindow.timing.clock = k.timing.clock := by
      unfold openWindow timing
      split <;> rfl
    unfold adjustCwnd
    dsimp only
    rw [hopen]
    split_ifs <;> rfl
  unfold flush
  split
  · rfl
  · dsimp only
    rw [hadjust, sweep_timing, fill, fillLoop_timing]
    exact hprobe (k := { k with acklist := [] })

/-- Only an update sets the clock. -/
theorem call_clock {c : Call} (hc : ∀ t, c ≠ .update t) :
    (k.call c).1.timing.clock = k.timing.clock := by
  cases c with
  | recv len => exact congrArg Timing.clock (recv_timing (k := k) len)
  | send buffer len => exact congrArg Timing.clock (send_timing (k := k) buffer len)
  | input data =>
      exact input_invariant (I := fun k' => k'.timing.clock = k.timing.clock)
        (fun data hi _ => (inputSeg_clock _ _ _).trans hi)
        (fun sn hk => by rwa [parseFastack_timing]) (fun una hk => by rwa [growCwnd_timing]) rfl
        data
  | update t => exact absurd rfl (hc t)
  | flush => exact flush_clock
  | setmtu mtu =>
      obtain ⟨a, b, heq⟩ := setmtu_eq (k := k) mtu
      rw [call, heq]
      rfl
  | interval n => rfl
  | nodelay a b c d =>
      obtain ⟨_, _, _, _, _, heq⟩ := setNodelay_eq (k := k) a b c d
      rw [call, heq]
      rfl
  | wndsize sndwnd rcvwnd =>
      obtain ⟨a, heq⟩ := wndsize_eq (k := k) sndwnd rcvwnd
      rw [call, heq]
      rfl

/-- The flush after one that is due at `f` is within an interval from the time `t`. -/
theorem schedule_tsFlush {t f : UInt32} (hge : 0 ≤ itimediff t f) (hlt : itimediff t f < 10000)
    (hpos : 0 < k.interval.toNat) (hle : k.interval.toNat ≤ 5000) (ht : k.current = t)
    (hf : k.tsFlush = f) :
    ∃ wait : UInt32, k.schedule.tsFlush = t + wait ∧ 0 < wait.toNat ∧
      wait.toNat ≤ k.interval.toNat := by
  have hoffset := offset_of_dist_nonneg hge
  have hnext : itimediff t (f + k.interval) = itimediff t f - k.interval.toNat := by
    unfold itimediff at hge hlt ⊢
    rw [dist_of_offset (c := f) (by rw [offset_add]; omega) (by rw [offset_add]; omega), offset_add,
      hoffset]
  unfold schedule
  dsimp only
  rw [ht, hf]
  split
  · exact ⟨k.interval, rfl, hpos, Nat.le_refl _⟩
  · next hnot =>
      have hsub : f + k.interval = t + (f + k.interval - t) := by grind
      have hahead : (f + k.interval - t).toNat = k.interval.toNat - offset f t := by
        have hoff : offset t (f + k.interval) = offset f (f + k.interval) - offset f t :=
          offset_sub (by unfold itimediff at hnot hnext; rw [offset_add]; omega)
        rwa [offset_add] at hoff
      unfold itimediff at hnot hnext
      exact ⟨f + k.interval - t, hsub, by omega, by omega⟩

/-- An update that flushes puts the next flush at an interval from now or less. -/
theorem update_tsFlush {t : UInt32} (hf : k.flushing (.update t) ≠ none)
    (hpos : 0 < k.interval.toNat) (hle : k.interval.toNat ≤ 5000) :
    ∃ wait : UInt32, (k.update t).1.timing.clock.tsFlush = t + wait ∧ 0 < wait.toNat ∧
      wait.toNat ≤ k.interval.toNat := by
  obtain ⟨u, f, hclock, hge, hlt⟩ : ∃ u f,
      k.setClock t = { k with current := t, updated := u, tsFlush := f } ∧
        0 ≤ itimediff t f ∧ itimediff t f < 10000 := by
    have hself := itimediff_self t
    obtain ⟨-, hclock⟩ | ⟨-, -, hclock⟩ | ⟨hupdated, hfar, hclock⟩ := setClock_cases (k := k) t
    · exact ⟨1, t, hclock, by omega, by omega⟩
    · exact ⟨k.updated, t, hclock, by omega, by omega⟩
    · rw [Ne, flushing_update_eq_none_iff] at hf
      unfold far at hfar
      refine ⟨k.updated, k.tsFlush, hclock, ?_, by omega⟩
      by_contra hneg
      exact hf ⟨hupdated, by omega, by omega⟩
  obtain ⟨wait, hwait, hpos', hle'⟩ := schedule_tsFlush
    (k := { k with current := t, updated := u, tsFlush := f }) hge hlt hpos hle rfl rfl
  have hupdate : k.update t =
      ({ k with current := t, updated := u, tsFlush := f } : Kcp).schedule.flush := by
    unfold update
    dsimp only
    rw [hclock]
    exact if_pos hge
  refine ⟨wait, ?_, hpos', hle'⟩
  rw [hupdate, flush_clock, ← hwait]
  generalize ({ k with current := t, updated := u, tsFlush := f } : Kcp).schedule = k'
  rfl

/-- **No update comes an interval after a flush without a flush**, whatever is called in between. -/
theorem flushing_after_interval {conv : UInt32} {calls rest : List Call} {k' : Kcp} {t d : UInt32}
    (hrun : (create conv).run calls = some k) (hf : k.flushing (.update t) ≠ none)
    (hthen : k.run (.update t :: rest) = some k') (hrest : ∀ c ∈ rest, ∀ t', c ≠ .update t')
    (hd : k.interval ≤ d) (hlt : d.toNat < 2 ^ 31) :
    k'.flushing (.update (t + d)) ≠ none := by
  obtain ⟨-, -, -, -, -, hge, hle, -⟩ := limits_after hrun
  obtain ⟨wait, hflush, hpos, hwait⟩ := update_tsFlush hf (Nat.lt_of_lt_of_le (by decide) hge) hle
  have hclock : k'.timing.clock = (k.update t).1.timing.clock :=
    run_invariant (I := fun k' => k'.timing.clock = (k.update t).1.timing.clock) (run_cons hthen)
      rfl fun hc hk => (call_clock (hrest _ hc)).trans hk
  rw [← hclock] at hflush
  rw [Ne, flushing_update_eq_none_iff]
  rintro ⟨-, -, hbefore⟩
  have htime : k'.tsFlush = t + wait := hflush
  have hle' : k.interval.toNat ≤ 5000 := hle
  have hdnat := UInt32.le_iff_toNat_le.mp hd
  rw [htime, itimediff, dist_of_offset (c := t) (by rw [offset_add, offset_add]; omega)
    (by rw [offset_add, offset_add]; omega), offset_add, offset_add] at hbefore
  omega

/-- A message is sent at the update that is an interval after the first one. -/
theorem flushing_after_interval_send :
    ∃ k, (create 7).run [.update 5, .send [1, 2, 3] 3] = some k ∧
      k.flushing (.update (5 + 100)) ≠ none := by
  have hrun : ((create 7).run [.update 5, .send [1, 2, 3] 3]).isSome := by decide +kernel
  obtain ⟨k, hk⟩ := Option.isSome_iff_exists.mp hrun
  have hflush : (create 7).flushing (.update 5) ≠ none := by decide +kernel
  have hcreate : (create 7).run [] = some (create 7) := rfl
  refine ⟨k, hk, flushing_after_interval hcreate hflush hk ?_ (by decide) (by decide)⟩
  intro c hc t' heq
  rw [List.mem_singleton.mp hc] at heq
  cases heq

end Kcp

end ArchNet.Udp

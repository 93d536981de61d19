import ArchNet.KcpSides

/-!
# The Windows of a Control Block

Whatever datagrams come, and whatever is called in between, the queues of a control block keep their
form. What is in flight lies in serial order between `snd_una` and `snd_nxt`, fewer than 65536
apart; what came early lies in serial order from `rcv_nxt` on, without a repetition; and the
counters are the lengths of the queues. No peer makes the block hold more than its receive window
twice.

* `Outgoing.Ok`, `Incoming.Ok W` — the form of each side, the second with the largest window `W`.
* `Kcp.Windows W` — both, with `snd_una` the number of the first segment that is in flight.

## Main results

* `Outgoing.Ok.filled`, `Outgoing.Ok.told`, `Incoming.Ok.shifts`, `Incoming.Ok.arrive`: the small
  steps keep the form.
* `windows_after`: **so does every run of calls**, from the block that `ikcp_create` makes.
-/

open Serial

namespace ArchNet.Udp

/-! ### The sending side -/

namespace Outgoing

variable {P : UInt32 → Prop} {o o' : Outgoing}

/-- The form of the sending side. -/
structure Ok (o : Outgoing) : Prop where
  sorted : o.flight.Pairwise fun e f => offset o.una e.sn < offset o.una f.sn
  below : ∀ e ∈ o.flight, offset o.una e.sn < offset o.una o.nxt
  near : offset o.una o.nxt < 2 ^ 16
  remote : o.rmtWnd.toNat < 2 ^ 16
  nflight_eq : o.nflight = UInt32.ofNat o.flight.length
  nqueue_eq : o.nqueue = UInt32.ofNat o.queue.length

/-- `snd_una` is the number of the first segment in flight, or the next one. -/
def IsFirst (o : Outgoing) : Prop := o.una = o.first

/-- A number may be given out as long as the window is not full. -/
theorem Ok.lt_of_itimediff (h : o.Ok) {cwnd : UInt32} (hw : cwnd ≤ o.rmtWnd)
    (hlt : itimediff o.nxt (o.una + cwnd) < 0) : offset o.una o.nxt < cwnd.toNat := by
  have hcwnd : cwnd.toNat ≤ o.rmtWnd.toNat := UInt32.le_iff_toNat_le.mp hw
  have hremote := h.remote
  have hnear := h.near
  rw [itimediff, dist_of_offset (c := o.una) (by rw [offset_add]; omega)
    (by rw [offset_add]; omega), offset_add] at hlt
  omega

/-- A fragment that gets its number goes behind all that is in flight. -/
theorem Ok.number (h : o.Ok) {f : Frag} {rest : List Frag} (hq : o.queue = f :: rest)
    (hlt : offset o.una o.nxt + 1 < 2 ^ 16) : (o.number f rest).Ok := by
  have hnext : offset o.una (o.nxt + 1) = offset o.una o.nxt + 1 := offset_succ (by omega)
  refine ⟨?_, ?_, ?_, h.remote, ?_, ?_⟩
  · refine List.pairwise_append.mpr ⟨h.sorted, List.pairwise_singleton _ _, ?_⟩
    intro e he g hg
    rw [List.mem_singleton.mp hg]
    exact h.below e he
  · intro e he
    rw [Outgoing.number] at he
    show offset o.una e.sn < offset o.una (o.nxt + 1)
    rw [hnext]
    rcases List.mem_append.mp he with he | he
    · exact Nat.lt_succ_of_lt (h.below e he)
    · rw [List.mem_singleton.mp he]
      exact Nat.lt_succ_self _
  · show offset o.una (o.nxt + 1) < 2 ^ 16
    rwa [hnext]
  · rw [Outgoing.number, List.length_append, List.length_singleton, UInt32.ofNat_add,
      ← h.nflight_eq]
    rfl
  · have hcount := h.nqueue_eq
    rw [hq, List.length_cons, UInt32.ofNat_add] at hcount
    show o.nqueue - 1 = UInt32.ofNat rest.length
    rw [hcount]
    exact UInt32.add_sub_cancel _ _

/-- A segment may be taken out of the flight. -/
theorem Ok.release (h : o.Ok) {pre post : List Seg} {e : Seg}
    (hf : o.flight = pre ++ e :: post) :
    Ok { o with flight := pre ++ post, nflight := o.nflight - 1 } := by
  have hsub : (pre ++ post).Sublist o.flight := by
    rw [hf]
    exact List.Sublist.append_left (List.sublist_cons_self e post) pre
  refine ⟨h.sorted.sublist hsub, fun g hg => h.below g (hsub.subset hg), h.near, h.remote, ?_,
    h.nqueue_eq⟩
  have hcount := h.nflight_eq
  rw [hf, List.length_append, List.length_cons, ← Nat.add_assoc, UInt32.ofNat_add,
    ← List.length_append] at hcount
  show o.nflight - 1 = UInt32.ofNat (pre ++ post).length
  rw [hcount]
  exact UInt32.add_sub_cancel _ _

/-- Nothing in flight, nor the next number, is behind the first one in flight. -/
theorem Ok.offset_first_le (h : o.Ok) :
    (∀ e ∈ o.flight, offset o.una o.first ≤ offset o.una e.sn) ∧
      offset o.una o.first ≤ offset o.una o.nxt := by
  cases hf : o.flight with
  | nil =>
      have hfirst : o.first = o.nxt := by rw [first, hf]; rfl
      refine ⟨?_, by rw [hfirst]⟩
      intro e he
      cases he
  | cons e rest =>
      have hfirst : o.first = e.sn := by rw [first, hf]; rfl
      have hsorted := h.sorted
      rw [hf] at hsorted
      rw [hfirst]
      refine ⟨?_, Nat.le_of_lt (h.below e (hf ▸ List.mem_cons_self))⟩
      intro g hg
      rcases List.mem_cons.mp hg with rfl | hg
      · exact Nat.le_refl _
      · exact Nat.le_of_lt ((List.pairwise_cons.mp hsorted).1 g hg)

/-- `snd_una` may move up to the first number in flight. -/
theorem Ok.shrink (h : o.Ok) : Ok { o with una := o.first } := by
  obtain ⟨hflight, hnext⟩ := h.offset_first_le
  have hnear := h.near
  refine ⟨?_, ?_, ?_, h.remote, h.nflight_eq, h.nqueue_eq⟩
  · refine List.Pairwise.imp_of_mem ?_ h.sorted
    intro e g he hg hlt
    have hle := hflight e he
    rw [offset_sub hle, offset_sub (hflight g hg)]
    omega
  · intro e he
    have hlt := h.below e he
    have hle := hflight e he
    show offset o.first e.sn < offset o.first o.nxt
    rw [offset_sub hle, offset_sub hnext]
    omega
  · show offset o.first o.nxt < 2 ^ 16
    rw [offset_sub hnext]
    omega

/-- **Numbering keeps the form of the sending side.** -/
theorem Ok.filled (h : o.Ok) (hs : Filled o o') : o'.Ok := by
  induction hs with
  | refl => exact h
  | @tail o₁ o₂ _ hs ih =>
      cases hs with
      | mk f rest cwnd hq hw hlt =>
          have hlt := ih.lt_of_itimediff hw hlt
          have hcwnd : cwnd.toNat ≤ o₁.rmtWnd.toNat := UInt32.le_iff_toNat_le.mp hw
          have hremote := ih.remote
          exact ih.number hq (by omega)

/-- **What it is told keeps the form of the sending side.** -/
theorem Ok.told (h : o.Ok) (hs : Told P o o') : o'.Ok := by
  induction hs with
  | refl => exact h
  | tail _ hs ih =>
      cases hs with
      | release pre post e hf _ => exact ih.release hf
      | shrink => exact ih.shrink
      | remote wnd hw => exact ⟨ih.sorted, ih.below, ih.near, hw, ih.nflight_eq, ih.nqueue_eq⟩

/-- Numbering keeps the first number. -/
theorem IsFirst.filled (h : o.IsFirst) (hs : Filled o o') : o'.IsFirst := by
  induction hs with
  | refl => exact h
  | @tail o₁ o₂ _ hs ih =>
      cases hs with
      | mk f rest cwnd _ _ _ =>
          unfold IsFirst first at *
          cases hf : o₁.flight with
          | nil => simpa [number, Frag.seg, hf] using ih
          | cons e l => simpa [number, hf] using ih

/-- What is in flight are fewer than 65536 segments. -/
theorem Ok.length_flight_lt (h : o.Ok) : o.flight.length < 2 ^ 16 := by
  have hlen := length_le_of_sorted (Nat.zero_le _) h.sorted (fun _ _ => Nat.zero_le _) h.below
  have hnear := h.near
  omega

end Outgoing

/-! ### The receiving side -/

namespace Incoming

variable {W : ℕ} {i i' : Incoming} {s : Seg}

/-- The form of the receiving side, if the window has been `W` at most. -/
structure Ok (W : ℕ) (i : Incoming) : Prop where
  sorted : i.early.Pairwise fun s t => offset i.nxt s.sn < offset i.nxt t.sn
  near : ∀ s ∈ i.early, offset i.nxt s.sn < W
  queue_le : i.queue.length ≤ W
  wnd_ge : wndRcv ≤ i.wnd
  wnd_le : i.wnd.toNat ≤ W
  nearly_eq : i.nearly = UInt32.ofNat i.early.length
  nqueue_eq : i.nqueue = UInt32.ofNat i.queue.length

/-- The counter of `rcv_queue` does not wrap. -/
theorem Ok.toNat_nqueue (h : i.Ok W) (hW : W < 2 ^ 31) : i.nqueue.toNat = i.queue.length := by
  have hle := h.queue_le
  rw [h.nqueue_eq, UInt32.toNat_ofNat']
  exact Nat.mod_eq_of_lt (by omega)

/-- A segment that moves on to `rcv_queue` leaves the others ahead of the next number. -/
theorem Ok.shift (h : i.Ok W) (hW : W < 2 ^ 31) (hs : Shift i i') : i'.Ok W := by
  cases hs with
  | mk s rest hearly hsn hroom =>
      have hsorted := h.sorted
      have hcount := h.nearly_eq
      rw [hearly] at hsorted hcount
      obtain ⟨hhead, htail⟩ := List.pairwise_cons.mp hsorted
      have hstep : ∀ t ∈ rest, offset (i.nxt + 1) t.sn = offset i.nxt t.sn - 1 := by
        intro t ht
        have hpos := hhead t ht
        have hone : offset i.nxt (i.nxt + 1) = 1 := offset_add i.nxt 1
        rw [offset_sub (by rw [hone]; omega), hone]
      have hlen : i.queue.length < i.wnd.toNat := by
        have := UInt32.lt_iff_toNat_lt.mp hroom
        rwa [h.toNat_nqueue hW] at this
      have hwnd := h.wnd_le
      refine ⟨?_, ?_, ?_, h.wnd_ge, hwnd, ?_, ?_⟩
      · refine List.Pairwise.imp_of_mem ?_ htail
        intro t u ht hu hlt
        have hpos := hhead t ht
        show offset (i.nxt + 1) t.sn < offset (i.nxt + 1) u.sn
        rw [hstep t ht, hstep u hu]
        omega
      · intro t ht
        have hnear := h.near t (hearly ▸ List.mem_cons_of_mem _ ht)
        show offset (i.nxt + 1) t.sn < W
        rw [hstep t ht]
        omega
      · show (i.queue ++ [s]).length ≤ W
        rw [List.length_append, List.length_singleton]
        omega
      · rw [List.length_cons, UInt32.ofNat_add] at hcount
        show i.nearly - 1 = UInt32.ofNat rest.length
        rw [hcount]
        exact UInt32.add_sub_cancel _ _
      · show i.nqueue + 1 = UInt32.ofNat (i.queue ++ [s]).length
        rw [List.length_append, List.length_singleton, UInt32.ofNat_add, ← h.nqueue_eq]
        rfl

/-- The same of several segments. -/
theorem Ok.shifts (h : i.Ok W) (hW : W < 2 ^ 31) (hs : Shifts i i') : i'.Ok W := by
  induction hs with
  | refl => exact h
  | tail _ hs ih => exact ih.shift hW hs

/-- In a window of less than half the range, the tests of `ikcp_parse_data` are those of the
order. -/
theorem Ok.agrees (h : i.Ok W) (hW : W < 2 ^ 31) (hsn : offset i.nxt s.sn < 2 ^ 31) :
    Agrees (fun t : Seg => t.sn == s.sn) (fun t => decide (itimediff s.sn t.sn > 0))
      (fun t => offset i.nxt t.sn) s i.early where
  same_iff t ht := by rw [beq_iff_eq, offset_inj]
  above_iff t ht := by
    have hnear := h.near t ht
    rw [decide_eq_true_eq, itimediff, dist_of_offset (c := i.nxt) (by omega) (by omega)]
    omega

/-- A number that the window takes is less than the window ahead. -/
theorem Ok.offset_lt (h : i.Ok W) (hW : W < 2 ^ 31) (hge : 0 ≤ itimediff s.sn i.nxt)
    (hlt : itimediff s.sn (i.nxt + i.wnd) < 0) : offset i.nxt s.sn < i.wnd.toNat := by
  have hnear := dist_nonneg_iff.mp hge
  have hwnd := h.wnd_le
  rw [itimediff, dist_of_offset (c := i.nxt) (by rw [offset_add]; omega)
    (by rw [offset_add]; omega), offset_add] at hlt
  omega

/-- A segment that arrives is put into its order. -/
theorem Ok.arrive (h : i.Ok W) (hW : W < 2 ^ 31) (hs : Arrive s i i') : i'.Ok W := by
  cases hs with
  | known _ => exact h
  | accept l hl hge hlt =>
      have hsn := h.offset_lt hW hge hlt
      have hwnd := h.wnd_le
      have hperm := insertBack_perm hl
      refine ⟨insertBack_sorted (h.agrees hW (by omega)) h.sorted hl, ?_, h.queue_le, h.wnd_ge,
        hwnd, ?_, h.nqueue_eq⟩
      · intro t ht
        rcases List.mem_cons.mp (hperm.subset ht) with rfl | ht
        · exact Nat.lt_of_lt_of_le hsn hwnd
        · exact h.near t ht
      · show i.nearly + 1 = UInt32.ofNat l.length
        rw [hperm.length_eq, List.length_cons, UInt32.ofNat_add, ← h.nearly_eq]
        rfl

/-- The form says nothing about the acknowledgements. -/
theorem Ok.withAcks (h : i.Ok W) (l : List (UInt32 × UInt32)) : Ok W { i with acks := l } :=
  ⟨h.sorted, h.near, h.queue_le, h.wnd_ge, h.wnd_le, h.nearly_eq, h.nqueue_eq⟩

/-- A message is taken off `rcv_queue`. -/
theorem Ok.take (h : i.Ok W) {l rest : List Seg} (hq : i.queue = l ++ rest) :
    Ok W { i with queue := rest, nqueue := i.nqueue - UInt32.ofNat l.length } := by
  have hle := h.queue_le
  have hcount := h.nqueue_eq
  rw [hq, List.length_append] at hle hcount
  refine ⟨h.sorted, h.near, Nat.le_trans (Nat.le_add_left _ _) hle, h.wnd_ge, h.wnd_le, h.nearly_eq,
    ?_⟩
  show i.nqueue - UInt32.ofNat l.length = UInt32.ofNat rest.length
  rw [hcount, UInt32.ofNat_add]
  grind

/-- What came early are `W` segments at most. -/
theorem Ok.length_early_le (h : i.Ok W) : i.early.length ≤ W := by
  have hlen := length_le_of_sorted (Nat.zero_le _) h.sorted (fun _ _ => Nat.zero_le _) h.near
  omega

end Incoming

/-! ### Runs -/

namespace Kcp

variable {W : ℕ} {k : Kcp}

/-- The form of a block, if its receive window has been `W` at most. -/
structure Windows (W : ℕ) (k : Kcp) : Prop where
  outgoing : k.outgoing.Ok
  first : k.outgoing.IsFirst
  incoming : k.incoming.Ok W

/-- The windows are a matter of the two sides. -/
theorem Windows.congr {k' : Kcp} (h : k.Windows W) (hout : k'.outgoing = k.outgoing)
    (hin : k'.incoming = k.incoming) : k'.Windows W :=
  ⟨hout ▸ h.outgoing, hout ▸ h.first, hin ▸ h.incoming⟩

/-- A new block has empty queues. -/
theorem windows_create (conv : UInt32) (hW : 128 ≤ W) : (create conv).Windows W where
  outgoing := ⟨.nil, by rintro e ⟨⟩, (by decide : offset 0 0 < 2 ^ 16),
    (by decide : wndRcv.toNat < 2 ^ 16), rfl, rfl⟩
  first := rfl
  incoming := ⟨.nil, by rintro s ⟨⟩, Nat.zero_le _, UInt32.le_refl _, hW, rfl, rfl⟩

/-- A queue is its first message and the rest. -/
theorem takeMessage_append (l : List Seg) : (takeMessage l).1 ++ (takeMessage l).2 = l := by
  induction l with
  | nil => rfl
  | cons s rest ih =>
      rw [takeMessage]
      split
      · rfl
      · rw [List.cons_append, ih]

/-- A message that is handed out leaves `rcv_queue` with its count. -/
theorem Windows.dropMessage (h : k.Windows W) (len : ℤ) : (k.dropMessage len).Windows W := by
  unfold Kcp.dropMessage
  split
  · exact h
  · exact ⟨h.outgoing, h.first, h.incoming.take (takeMessage_append k.rcvQueue).symm⟩

/-- `ikcp_recv` keeps the form. -/
theorem Windows.recv (h : k.Windows W) (hW : W < 2 ^ 31) (len : ℤ) :
    (k.recv len).2.2.Windows W := by
  obtain ⟨-, heq⟩ | ⟨-, -, -, -, -, hshifts⟩ := recv_cases (k := k) len
  · rw [heq]
    exact h
  · refine ⟨?_, ?_, ((h.dropMessage len).incoming.shifts hW hshifts)⟩
    · rw [recv_outgoing]
      exact h.outgoing
    · rw [recv_outgoing]
      exact h.first

/-- `ikcp_send` keeps it, and the counter of `snd_queue`. -/
theorem Windows.send (h : k.Windows W) (buffer : List UInt8) (len : ℤ) :
    (k.send buffer len).2.Windows W := by
  obtain ⟨l, n, heq, hlen⟩ := send_eq (k := k) buffer len
  have ho := h.outgoing
  rw [heq]
  refine ⟨⟨ho.sorted, ho.below, ho.near, ho.remote, ho.nflight_eq, ?_⟩, h.first, h.incoming⟩
  have hcount : k.nsndQue = UInt32.ofNat (k.sndQueue.map Seg.frag).length := ho.nqueue_eq
  show k.nsndQue + UInt32.ofNat n = UInt32.ofNat (l.map Seg.frag).length
  rw [List.length_map, hlen, UInt32.ofNat_add, hcount, List.length_map]

/-- So does a flush. -/
theorem Windows.flush (h : k.Windows W) : k.flush.1.Windows W where
  outgoing := h.outgoing.filled flush_outgoing
  first := h.first.filled flush_outgoing
  incoming := by
    rw [flush_incoming]
    exact h.incoming.withAcks _

/-- A push keeps the form of the receiving side. -/
theorem Windows.inputPush (h : k.Windows W) (hW : W < 2 ^ 31) (hd : Header) (data : List UInt8) :
    (k.inputPush hd data).incoming.Ok W := by
  have hack : (k.ackPush hd.sn hd.ts).incoming.Ok W := h.incoming.withAcks _
  obtain heq | ⟨-, heq⟩ | ⟨hge, hlt, heq⟩ := inputPush_cases (k := k) hd data
  · rw [heq]
    exact h.incoming
  · rw [heq]
    exact hack
  · obtain ⟨i, harrive, hshifts⟩ :=
      parseData_incoming (k := k.ackPush hd.sn hd.ts) (s := hd.toSeg data) hge hlt
    rw [heq]
    exact (hack.arrive hW harrive).shifts hW hshifts

/-- After `ikcp_shrink_buf`, `snd_una` is the first number in flight. -/
theorem isFirst_shrinkBuf : k.shrinkBuf.outgoing.IsFirst := by
  rw [first_shrinkBuf]
  exact rfl

/-- The head of a segment keeps the form, as `ikcp_shrink_buf` comes last. -/
theorem Windows.inputHead (h : k.Windows W) {hd : Header} (hn : hd.Narrow) :
    (k.inputHead hd).Windows W where
  outgoing := h.outgoing.told (inputHead_outgoing hn.wnd)
  first := isFirst_shrinkBuf
  incoming := by
    rw [inputHead_incoming]
    exact h.incoming

/-- So does each segment of a datagram. -/
theorem Windows.inputSeg {i : Input} (h : i.kcp.Windows W) (hW : W < 2 ^ 31) {hd : Header}
    (hn : hd.Narrow) (data : List UInt8) : (inputSeg i hd data).kcp.Windows W := by
  have hhead := h.inputHead hn
  have hout := h.outgoing.told (inputSeg_outgoing i hn.wnd data)
  rw [inputSeg_kcp] at hout ⊢
  split_ifs at hout ⊢ with hack hpush hask
  · refine ⟨hout, isFirst_shrinkBuf, ?_⟩
    rw [shrinkBuf_incoming, parseAck_incoming, ackTime_incoming]
    exact hhead.incoming
  · refine ⟨hout, ?_, hhead.inputPush hW hd data⟩
    rw [inputPush_outgoing]
    exact hhead.first
  · exact hhead.congr askWindow_outgoing askWindow_incoming
  · exact hhead

/-- So does every datagram. -/
theorem Windows.input (h : k.Windows W) (hW : W < 2 ^ 31) (data : List UInt8) :
    (k.input data).2.Windows W :=
  input_invariant (fun data hi hn => hi.inputSeg hW hn data)
    (fun sn hk => hk.congr (parseFastack_outgoing sn) (parseFastack_incoming sn))
    (fun una hk => hk.congr (growCwnd_outgoing una) (growCwnd_incoming una)) h data

/-- A call sets no receive window of more than `W`. -/
def Call.WithinWindow (W : ℕ) : Call → Prop
  | .wndsize _ rcvwnd => rcvwnd.toInt ≤ W
  | _ => True

/-- No window is larger than this. -/
theorem Call.withinWindow (c : Call) : c.WithinWindow (2 ^ 31 - 1) := by
  cases c with
  | wndsize sndwnd rcvwnd =>
      have hint := rcvwnd.toInt_lt
      exact Int.le_of_lt_add_one (by omega)
  | _ => exact trivial

/-- A receive window is never set below `IKCP_WND_RCV`. -/
theorem Windows.wndsize (h : k.Windows W) (hW : 128 ≤ W) {sndwnd rcvwnd : Int32}
    (hr : rcvwnd.toInt ≤ W) : (k.wndsize sndwnd rcvwnd).Windows W := by
  obtain ⟨a, heq⟩ := wndsize_eq (k := k) sndwnd rcvwnd
  have hi := h.incoming
  rw [heq]
  refine ⟨h.outgoing, h.first, ⟨hi.sorted, hi.near, hi.queue_le, ?_, ?_, hi.nearly_eq,
    hi.nqueue_eq⟩⟩
  · show wndRcv ≤ if rcvwnd > 0 then imax rcvwnd.toUInt32 wndRcv else k.rcvWnd
    split
    · unfold imax
      split
      · assumption
      · exact UInt32.le_refl _
    · exact hi.wnd_ge
  · show (if rcvwnd > 0 then imax rcvwnd.toUInt32 wndRcv else k.rcvWnd).toNat ≤ W
    split
    · next hpos =>
        have hnat : rcvwnd.toUInt32.toNat ≤ W := by
          rw [Int32.toNat_toUInt32_of_le (Int32.le_of_lt hpos), Int32.toNatClampNeg]
          omega
        unfold imax
        split
        · exact hnat
        · exact hW
    · exact hi.wnd_le

/-- **Every call keeps the form of the queues.** -/
theorem Windows.call (h : k.Windows W) (hW128 : 128 ≤ W) (hW : W < 2 ^ 31) {c : Call}
    (hc : c.WithinWindow W) : (k.call c).1.Windows W := by
  cases c with
  | recv len => exact h.recv hW len
  | send buffer len => exact h.send buffer len
  | input data => exact h.input hW data
  | update current =>
      obtain ⟨u, f, hupdate⟩ := update_cases (k := k) current
      have hclock : Windows W { k with current := current, updated := u, tsFlush := f } :=
        h.congr rfl rfl
      rcases hupdate with heq | heq
      · rw [Kcp.call, heq]
        exact hclock
      · rw [Kcp.call, heq]
        exact hclock.flush
  | flush => exact h.flush
  | setmtu mtu =>
      obtain ⟨a, b, heq⟩ := setmtu_eq (k := k) mtu
      have ho := h.outgoing
      rw [Kcp.call, heq]
      exact ⟨⟨ho.sorted, ho.below, ho.near, ho.remote, ho.nflight_eq, ho.nqueue_eq⟩, h.first,
        h.incoming⟩
  | interval n => exact h.congr rfl rfl
  | nodelay a b c d =>
      obtain ⟨_, _, _, _, _, heq⟩ := setNodelay_eq (k := k) a b c d
      rw [Kcp.call, heq]
      exact h.congr rfl rfl
  | wndsize sndwnd rcvwnd => exact h.wndsize hW128 hc

/-- **Every run of calls keeps the form of the queues**, whatever the datagrams are: the block holds
`W` segments at most in each of the two queues of the receiving side, and fewer than 65536 are in
flight. -/
theorem windows_after {conv : UInt32} (hW128 : 128 ≤ W) (hW : W < 2 ^ 31) {calls : List Call}
    (hcalls : ∀ c ∈ calls, c.WithinWindow W) (hrun : (create conv).run calls = some k) :
    k.Windows W ∧ k.rcvQueue.length ≤ W ∧ k.rcvBuf.length ≤ W ∧ k.sndBuf.length < 2 ^ 16 := by
  have hk : k.Windows W :=
    run_invariant hrun (windows_create conv hW128) fun hc hk => hk.call hW128 hW (hcalls _ hc)
  refine ⟨hk, hk.incoming.queue_le, hk.incoming.length_early_le, ?_⟩
  have hflight := hk.outgoing.length_flight_lt
  rwa [outgoing, List.length_map] at hflight

/-- A larger window, a datagram that is none of a peer's, and a message. -/
theorem windows_after_calls :
    ∃ k, (create 7).run
      [.wndsize 0 200, .input (List.replicate 48 0), .send [1, 2, 3] 3, .update 0] = some k ∧
    k.Windows 200 ∧ k.rcvQueue.length ≤ 200 ∧ k.rcvBuf.length ≤ 200 ∧
      k.sndBuf.length < 2 ^ 16 := by
  have hrun : ((create 7).run
      [.wndsize 0 200, .input (List.replicate 48 0), .send [1, 2, 3] 3, .update 0]).isSome := by
    decide +kernel
  obtain ⟨k, hk⟩ := Option.isSome_iff_exists.mp hrun
  refine ⟨k, hk, windows_after (by decide) (by decide) ?_ hk⟩
  intro c hc
  simp only [List.mem_cons, List.not_mem_nil, or_false] at hc
  rcases hc with rfl | rfl | rfl | rfl
  · exact (by decide : (200 : Int32).toInt ≤ (200 : ℕ))
  · exact trivial
  · exact trivial
  · exact trivial

end Kcp

end ArchNet.Udp

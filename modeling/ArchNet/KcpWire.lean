import ArchNet.KcpSides

/-!
# What a Flush Sends

A flush packs segments into datagrams of at most `mtu` bytes, and `ikcp_input` takes a datagram
apart. The first part follows a segment through its 24 bytes; the second follows the buffer of a
flush.

* `Seg.wire` — a segment with its data; `join` — the bytes of several.
* `Kcp.flushSegs` — what a flush sends: the acknowledgements, the window commands, and the segments
  that are due.
* `Packer.Packs`, `Packer.Fits` — the buffer and the datagrams of a flush hold whole segments, and
  keep to the size.

## Main results

* `decodeHeader_wire`: a header is read back, its short numbers cut to their widths.
* `inputLoop_join`: joined segments are processed one after the other.
* `flush_packs`: **a flush sends each of its segments once**, whole and in order.
* `input_join`: a datagram of whole segments is processed segment by segment.
-/

open Bytes

namespace ArchNet.Udp

/-! ### A segment on the wire -/

/-- A segment as it is sent. -/
def Seg.wire (s : Seg) : List UInt8 := s.encode ++ s.data

/-- The bytes of several segments. -/
def join (segs : List Seg) : Datagram := segs.flatMap Seg.wire

/-- The header of a segment as it is read at the other end. -/
def Seg.header (s : Seg) : Header where
  conv := s.conv
  cmd := UInt32.ofNat (s.cmd.toNat % 256)
  frg := UInt32.ofNat (s.frg.toNat % 256)
  wnd := UInt32.ofNat (s.wnd.toNat % 65536)
  ts := s.ts
  sn := s.sn
  una := s.una
  len := s.len

/-- A number of `k` bytes has `k` bytes. -/
theorem length_hostBytes (k n : ℕ) : (hostBytes k n).length = k := by
  rw [hostBytes, List.length_reverse, length_beBytes]

/-- A header has 24 bytes. -/
@[simp] theorem length_encode (s : Seg) : s.encode.length = overhead := by
  simp only [Seg.encode, List.length_append, length_hostBytes]
  rfl

/-- A segment has its header and its data. -/
@[simp] theorem length_wire (s : Seg) : s.wire.length = overhead + s.data.length := by
  rw [Seg.wire, List.length_append, length_encode]

/-- A number is read back up to its width. -/
theorem hostVal_hostBytes (k n : ℕ) : hostVal (hostBytes k n) = n % 256 ^ k := by
  rw [hostVal, hostBytes, List.reverse_reverse, beVal_beBytes]

/-- A number is read where it was written. -/
theorem decodeAt_hostBytes (k n : ℕ) (rest : List UInt8) :
    decodeAt (hostBytes k n ++ rest) 0 k = UInt32.ofNat (n % 256 ^ k) := by
  rw [decodeAt, span, List.drop_zero, List.take_left' (length_hostBytes k n), hostVal_hostBytes]

/-- What lies in front of a number does not matter. -/
theorem decodeAt_skip {k pos : ℕ} (h : k ≤ pos) (n len : ℕ) (rest : List UInt8) :
    decodeAt (hostBytes k n ++ rest) pos len = decodeAt rest (pos - k) len := by
  rw [decodeAt, decodeAt, span, span, List.drop_append, length_hostBytes,
    List.drop_eq_nil_of_le (by rw [length_hostBytes]; exact h), List.nil_append]

/-- A number of four bytes is read back whole. -/
theorem ofNat_mod_word (n : UInt32) : UInt32.ofNat (n.toNat % 4294967296) = n := by
  rw [Nat.mod_eq_of_lt n.toNat_lt, UInt32.ofNat_toNat]

/-- **A header is read back.** -/
theorem decodeHeader_wire (s : Seg) (rest : List UInt8) :
    decodeHeader (s.encode ++ rest) = s.header := by
  simp only [decodeHeader, Seg.header, Seg.encode, List.append_assoc, decodeAt_skip,
    decodeAt_hostBytes, ofNat_mod_word, Nat.reduceLeDiff, Nat.reduceSub, Nat.reducePow]

/-! ### Joined segments -/

/-- A segment that `ikcp_input` takes: of this connection, with a command that it knows. -/
structure Seg.Valid (conv : UInt32) (s : Seg) : Prop where
  conv_eq : s.conv = conv
  cmd : s.cmd = cmdPush ∨ s.cmd = cmdAck ∨ s.cmd = cmdWask ∨ s.cmd = cmdWins
  len : s.data.length < 2 ^ 31

/-- What one segment of a datagram does to what `ikcp_input` keeps. -/
def Kcp.inputWire (i : Kcp.Input) (s : Seg) : Kcp.Input := Kcp.inputSeg i s.header s.data

/-- The bytes of the first segment come first. -/
theorem join_cons (s : Seg) (segs : List Seg) : join (s :: segs) = s.wire ++ join segs := rfl

/-- Segments are joined one group behind the other. -/
theorem join_append (l m : List Seg) : join (l ++ m) = join l ++ join m := List.flatMap_append

/-- Segments have bytes. -/
theorem le_length_join (segs : List Seg) : segs.length ≤ (join segs).length := by
  induction segs with
  | nil => exact Nat.le_refl _
  | cons s segs ih =>
      have hpos : 0 < overhead := by decide
      rw [join_cons, List.length_append, length_wire, List.length_cons]
      omega

/-- The length of a segment is read back. -/
theorem Seg.Valid.len_toNat {conv : UInt32} {s : Seg} (h : s.Valid conv) :
    s.len.toNat = s.data.length := by
  have hlen := h.len
  rw [Seg.len, UInt32.toNat_ofNat']
  exact Nat.mod_eq_of_lt (by omega)

/-- The length is positive as an `int`, which `ikcp_input` asks for. -/
theorem Seg.Valid.len_nonneg {conv : UInt32} {s : Seg} (h : s.Valid conv) :
    ¬ s.len.toInt32 < 0 := by
  have hlen : 2 * s.len.toBitVec.toNat < 2 ^ 32 := by
    have hnat : s.len.toBitVec.toNat = s.data.length := h.len_toNat
    have := h.len
    omega
  have hint : s.len.toInt32.toInt = s.len.toBitVec.toNat := BitVec.toInt_eq_toNat_of_lt hlen
  rw [Int32.lt_iff_toInt_lt, hint]
  exact not_lt.mpr (Int.natCast_nonneg _)

/-- A command that `ikcp_input` knows has one byte. -/
theorem Seg.Valid.header_cmd {conv : UInt32} {s : Seg} (h : s.Valid conv) :
    s.header.cmd = s.cmd := by
  rw [Seg.header]
  dsimp only
  rcases h.cmd with hc | hc | hc | hc <;> rw [hc] <;> rfl

namespace Kcp

variable {k : Kcp}

/-- No segment changes the connection. -/
theorem inputSeg_conv (i : Input) {h : Header} (hn : h.Narrow) (data : List UInt8) :
    (inputSeg i h data).kcp.conv = i.kcp.conv :=
  (inputSeg_outgoing i hn.wnd data).same.conv

/-- A remainder is within its width. -/
theorem toNat_ofNat_mod_lt (n : ℕ) {m : ℕ} (hm : 0 < m) : (UInt32.ofNat (n % m)).toNat < m := by
  rw [UInt32.toNat_ofNat']
  exact lt_of_le_of_lt (Nat.mod_le _ _) (Nat.mod_lt _ hm)

/-- The short numbers of a header that is read back are within their widths. -/
theorem narrow_header (s : Seg) : s.header.Narrow where
  cmd := toNat_ofNat_mod_lt _ (by decide)
  frg := toNat_ofNat_mod_lt _ (by decide)
  wnd := toNat_ofNat_mod_lt _ (by decide)

/-- **Joined segments are processed one after the other.** -/
theorem inputLoop_join {segs : List Seg} {i : Input} (hvalid : ∀ s ∈ segs, s.Valid i.kcp.conv)
    {fuel : ℕ} (hfuel : segs.length < fuel) :
    inputLoop fuel (join segs) i = (0, segs.foldl inputWire i) := by
  induction segs generalizing i fuel with
  | nil =>
      cases fuel with
      | zero => rfl
      | succ fuel => rfl
  | cons s segs ih =>
      obtain _ | fuel := fuel
      · exact absurd hfuel (Nat.not_lt_zero _)
      have hs := hvalid s List.mem_cons_self
      have hbytes : join (s :: segs) = s.encode ++ (s.data ++ join segs) := by
        rw [join_cons, Seg.wire, List.append_assoc]
      have hlen : ¬ (join (s :: segs)).length < overhead := by
        rw [hbytes, List.length_append, length_encode]
        omega
      have hdrop : (join (s :: segs)).drop overhead = s.data ++ join segs := by
        rw [hbytes, List.drop_left' (length_encode s)]
      rw [inputLoop, if_neg hlen]
      dsimp only
      rw [hdrop, hbytes, decodeHeader_wire]
      have hcmd : ¬ (s.header.cmd ≠ cmdPush ∧ s.header.cmd ≠ cmdAck ∧ s.header.cmd ≠ cmdWask ∧
          s.header.cmd ≠ cmdWins) := by
        rw [hs.header_cmd]
        rcases hs.cmd with hc | hc | hc | hc <;> simp [hc]
      have hroom : ¬ ((s.data ++ join segs).length < s.header.len.toNat ∨
          s.header.len.toInt32 < 0) := by
        have hnat : s.header.len.toNat = s.data.length := hs.len_toNat
        rintro (hlt | hneg)
        · rw [hnat, List.length_append] at hlt
          omega
        · exact hs.len_nonneg hneg
      have hconv : ¬ s.header.conv ≠ i.kcp.conv := not_not.mpr hs.conv_eq
      have hnat : s.header.len.toNat = s.data.length := hs.len_toNat
      rw [if_neg hconv, if_neg hroom, if_neg hcmd, hnat, List.drop_left' rfl, List.take_left' rfl,
        List.foldl_cons]
      refine ih ?_ (by rw [List.length_cons] at hfuel; omega)
      intro t ht
      rw [inputSeg_conv i (narrow_header s)]
      exact hvalid t (List.mem_cons_of_mem _ ht)

end Kcp

/-! ### The buffer of a flush -/

namespace Packer

variable {p : Packer} {segs : List Seg} {mtu : UInt32}

/-- What has been put in are these segments, and the datagrams end between two of them. -/
def Packs (p : Packer) (segs : List Seg) : Prop :=
  ∃ (groups : List (List Seg)) (last : List Seg), (∀ g ∈ groups, g ≠ []) ∧
    p.sent = groups.map join ∧ p.buffer = join last ∧ segs = groups.flatten ++ last

/-- No datagram is empty, and neither they nor the buffer have more than `mtu` bytes. Below 2^30
such a buffer stays inside its block. -/
structure Fits (mtu : UInt32) (p : Packer) : Prop where
  buffer_le : p.buffer.length ≤ mtu.toNat
  sent : ∀ d ∈ p.sent, 0 < d.length ∧ d.length ≤ mtu.toNat
  within : mtu.toNat < 2 ^ 30 → p.within = true

/-- An empty buffer holds no segment. -/
theorem packs_empty : Packs {} [] := ⟨[], [], by rintro g ⟨⟩, rfl, rfl, rfl⟩

/-- An empty buffer keeps to `mtu`. -/
theorem fits_empty : Fits mtu {} where
  buffer_le := Nat.zero_le _
  sent := by rintro d ⟨⟩
  within _ := rfl

/-- Only nothing has no bytes. -/
theorem eq_nil_of_join {l : List Seg} (h : (join l).length = 0) : l = [] :=
  List.eq_nil_of_length_eq_zero (by have := le_length_join l; omega)

/-- A buffer that is output becomes a datagram of its segments. -/
theorem Packs.output (h : p.Packs segs) : p.output.Packs segs := by
  obtain ⟨groups, last, hne, hsent, hbuffer, rfl⟩ := h
  unfold Packer.output
  rw [hbuffer]
  split
  · next hzero =>
      obtain rfl := eq_nil_of_join hzero
      exact ⟨groups, [], hne, hsent, rfl, rfl⟩
  · next hpos =>
      refine ⟨groups ++ [last], [], ?_, ?_, rfl, ?_⟩
      · intro g hg
        rcases List.mem_append.mp hg with hg | hg
        · exact hne g hg
        · rw [List.mem_singleton.mp hg]
          rintro rfl
          exact hpos rfl
      · rw [hsent, List.map_append, List.map_singleton]
      · rw [List.flatten_append, List.flatten_singleton, List.append_nil]

/-- **A segment that is put in stays whole.** -/
theorem Packs.put (h : p.Packs segs) (mtu : UInt32) (s : Seg) :
    (p.put mtu s.wire).Packs (segs ++ [s]) := by
  have happend {q : Packer} (hq : q.Packs segs) (within : Bool) :
      Packs { q with buffer := q.buffer ++ s.wire, within := within } (segs ++ [s]) := by
    obtain ⟨groups, last, hne, hsent, hbuffer, rfl⟩ := hq
    refine ⟨groups, last ++ [s], hne, hsent, ?_, List.append_assoc _ _ _⟩
    rw [hbuffer, join_append, join_cons]
    exact congrArg _ (List.append_nil _).symm
  unfold Packer.put
  dsimp only
  split
  · exact happend h.output _
  · exact happend h _

/-- A buffer that is output is a datagram of `mtu` bytes at most. -/
theorem Fits.output (h : p.Fits mtu) : p.output.Fits mtu := by
  refine ⟨Nat.zero_le _, ?_, h.within⟩
  intro d hd
  unfold Packer.output at hd
  dsimp only at hd
  split at hd
  · exact h.sent d hd
  · next hpos =>
      rcases List.mem_append.mp hd with hd | hd
      · exact h.sent d hd
      · rw [List.mem_singleton.mp hd]
        exact ⟨Nat.pos_of_ne_zero hpos, h.buffer_le⟩

/-- Below 2^30 the block of a flush has room for `mtu` bytes. -/
theorem le_capacity (hmtu : mtu.toNat < 2 ^ 30) : mtu.toNat ≤ capacity mtu := by
  have hover : (UInt32.ofNat overhead).toNat = 24 := rfl
  have hthree : (3 : UInt32).toNat = 3 := rfl
  rw [capacity, UInt32.toNat_mul, UInt32.toNat_add, hover, hthree,
    Nat.mod_eq_of_lt (show mtu.toNat + 24 < 2 ^ 32 by omega), Nat.mod_eq_of_lt (by omega)]
  omega

/-- Bytes that are put in fit behind the others, or alone. -/
theorem Fits.put (h : p.Fits mtu) {bytes : List UInt8} (hb : bytes.length ≤ mtu.toNat) :
    (p.put mtu bytes).Fits mtu := by
  have hwithin {q : Packer} (hq : q.Fits mtu)
      (hroom : q.buffer.length + bytes.length ≤ mtu.toNat) (hmtu : mtu.toNat < 2 ^ 30) :
      (q.within && decide (p.buffer.length + bytes.length < 2 ^ 31) &&
        decide (q.buffer.length + bytes.length ≤ capacity mtu)) = true := by
    have hsize := h.buffer_le
    rw [hq.within hmtu, decide_eq_true (by omega),
      decide_eq_true (hroom.trans (le_capacity hmtu))]
    rfl
  unfold Packer.put
  dsimp only
  split
  · have hroom : p.output.buffer.length + bytes.length ≤ mtu.toNat := by
      rwa [Packer.output, List.length_nil, Nat.zero_add]
    exact ⟨by rwa [List.length_append], h.output.sent, hwithin h.output hroom⟩
  · next hle =>
      have hroom : p.buffer.length + bytes.length ≤ mtu.toNat := not_lt.mp hle
      exact ⟨by rwa [List.length_append], h.sent, hwithin h hroom⟩

end Packer

/-! ### A flush -/

/-- An acknowledgement. -/
def Seg.ack (seg : Seg) (a : UInt32 × UInt32) : Seg := { seg with sn := a.1, ts := a.2 }

namespace Kcp

open Packer

variable {k : Kcp} {p : Packer} {segs : List Seg}

/-- The acknowledgements of a flush. -/
def ackSegs (k : Kcp) : List Seg := k.acklist.map k.flushSeg.ack

/-- The window commands of a flush, which come with the numbers of the last acknowledgement. -/
def windowSegs (k : Kcp) : List Seg :=
  let seg := k.acklist.foldl Seg.ack k.flushSeg
  let probe := ({ k with acklist := [] } : Kcp).probeWindow.probe
  (if probe &&& askSend ≠ 0 then [{ seg with cmd := cmdWask }] else []) ++
    (if probe &&& askTell ≠ 0 then [{ seg with cmd := cmdWins }] else [])

/-- What the pass over `snd_buf` sends of a segment, if anything. -/
def dueSeg (k : Kcp) (wnd : UInt32) (s : Seg) : Option Seg :=
  let d := k.due k.resentOf s
  if d = .no then none else some (k.stamp wnd (k.resend s d))

/-- The block when `snd_buf` is filled. -/
def filled (k : Kcp) : Kcp := k.flushCommands.1.fill k.flushSeg.wnd

/-- What a flush sends. -/
def flushSegs (k : Kcp) : List Seg :=
  k.ackSegs ++ k.windowSegs ++ k.filled.sndBuf.filterMap (k.filled.dueSeg k.flushSeg.wnd)

/-- The acknowledgements are put in one by one, and the segment keeps the numbers of the last one.
-/
theorem flushAcks_packs (mtu : UInt32) (acks : List (UInt32 × UInt32)) {seg : Seg}
    (hdata : seg.data = []) (hp : p.Packs segs) :
    (flushAcks mtu acks seg p).1 = acks.foldl Seg.ack seg ∧
      (flushAcks mtu acks seg p).2.Packs (segs ++ acks.map seg.ack) := by
  induction acks generalizing seg p segs with
  | nil => exact ⟨rfl, by rwa [List.map_nil, List.append_nil]⟩
  | cons a acks ih =>
      obtain ⟨sn, ts⟩ := a
      have hput : (p.put mtu (seg.ack (sn, ts)).encode).Packs (segs ++ [seg.ack (sn, ts)]) := by
        have hwire : (seg.ack (sn, ts)).wire = (seg.ack (sn, ts)).encode := by
          rw [Seg.wire, Seg.ack, hdata, List.append_nil]
        rw [← hwire]
        exact hp.put mtu _
      have hnext : (seg.ack (sn, ts)).data = [] := hdata
      obtain ⟨hlast, hrest⟩ := ih hnext hput
      rw [List.append_assoc] at hrest
      exact ⟨hlast, hrest⟩

/-- An acknowledgement carries no data. -/
theorem foldl_ack_data (acks : List (UInt32 × UInt32)) (seg : Seg) :
    (acks.foldl Seg.ack seg).data = seg.data := by
  induction acks generalizing seg with
  | nil => rfl
  | cons a acks ih => rw [List.foldl_cons, ih]; rfl

/-- A window command is put in if `probe` asks for it. -/
theorem flushProbe_packs (ask cmd : UInt32) {seg : Seg} (hdata : seg.data = [])
    (hp : p.Packs segs) :
    (k.flushProbe ask cmd seg p).2.Packs
      (segs ++ if k.probe &&& ask ≠ 0 then [{ seg with cmd := cmd }] else []) := by
  unfold flushProbe
  split
  · have hwire : ({ seg with cmd := cmd } : Seg).wire = ({ seg with cmd := cmd } : Seg).encode := by
      rw [Seg.wire, hdata, List.append_nil]
    dsimp only
    rw [← hwire]
    exact hp.put _ _
  · rwa [List.append_nil]

/-- The commands of a flush are packed in front of the data. -/
theorem flushCommands_packs : k.flushCommands.2.Packs (k.ackSegs ++ k.windowSegs) := by
  have hnone : k.flushSeg.data = [] := rfl
  obtain ⟨hlast, hacks⟩ := flushAcks_packs k.mtu k.acklist hnone packs_empty
  have hdata : (k.acklist.foldl Seg.ack k.flushSeg).data = [] := foldl_ack_data _ _
  rw [List.nil_append] at hacks
  unfold flushCommands windowSegs
  dsimp only
  rw [hlast, ← List.append_assoc]
  have hask := flushProbe_packs (k := ({ k with acklist := [] } : Kcp).probeWindow) askSend cmdWask
    hdata hacks
  generalize ({ k with acklist := [] } : Kcp).probeWindow = k' at hask ⊢
  have hseg : { (k'.flushProbe askSend cmdWask (k.acklist.foldl Seg.ack k.flushSeg)
      (flushAcks k.mtu k.acklist k.flushSeg {}).2).1 with cmd := cmdWins } =
      { k.acklist.foldl Seg.ack k.flushSeg with cmd := cmdWins } := by
    unfold flushProbe
    split <;> rfl
  have hempty : (k'.flushProbe askSend cmdWask (k.acklist.foldl Seg.ack k.flushSeg)
      (flushAcks k.mtu k.acklist k.flushSeg {}).2).1.data = [] := by
    unfold flushProbe
    split <;> exact hdata
  have htell := flushProbe_packs (k := k') askTell cmdWins hempty hask
  rwa [hseg] at htell

/-- The pass over `snd_buf` puts in the segments that are due. -/
theorem sweepLoop_packs (resent wnd : UInt32) (l : List Seg) {w : Sweep}
    (hw : w.packer.Packs segs) (hresent : resent = k.resentOf) :
    (k.sweepLoop resent wnd l w).2.packer.Packs (segs ++ l.filterMap (k.dueSeg wnd)) := by
  subst hresent
  induction l generalizing w segs with
  | nil => rwa [List.filterMap_nil, List.append_nil]
  | cons s rest ih =>
      simp only [sweepLoop]
      by_cases hno : k.due k.resentOf s = .no
      · have hsame : k.sweepSeg k.resentOf wnd s w = (s, w) := by
          rw [sweepSeg]
          exact if_pos hno
        have hnone : k.dueSeg wnd s = none := if_pos hno
        rw [hsame, List.filterMap_cons_none hnone]
        exact ih hw
      · have hput : (k.sweepSeg k.resentOf wnd s w).2.packer.Packs
            (segs ++ [k.stamp wnd (k.resend s (k.due k.resentOf s))]) := by
          rw [sweepSeg, if_neg hno]
          exact hw.put _ _
        have hsome : k.dueSeg wnd s = some (k.stamp wnd (k.resend s (k.due k.resentOf s))) :=
          if_neg hno
        rw [List.filterMap_cons_some hsome, ← List.singleton_append, ← List.append_assoc]
        exact ih hput

/-- **A flush sends each of its segments once**, whole and in order: the datagrams are the segments
cut into groups. -/
theorem flush_packs (hupdated : k.updated ≠ 0) :
    ∃ groups : List (List Seg), (∀ g ∈ groups, g ≠ []) ∧ k.flush.2 = groups.map join ∧
      groups.flatten = k.flushSegs := by
  have hswept : (k.filled.sweep k.flushSeg.wnd k.flushCommands.2).2.packer.Packs k.flushSegs :=
    sweepLoop_packs _ _ _ flushCommands_packs rfl
  obtain ⟨groups, last, hne, hsent, hbuffer, hsegs⟩ := hswept.output
  have hlast : last = [] := eq_nil_of_join (by rw [← hbuffer]; rfl)
  refine ⟨groups, hne, ?_, ?_⟩
  · rw [flush, if_neg hupdated]
    exact hsent
  · rw [hsegs, hlast, List.append_nil]

/-! ### What is sent -/

/-- `snd_buf` is filled by numbering. -/
theorem filled_outgoing : Outgoing.Filled k.outgoing k.filled.outgoing := by
  rw [← flushCommands_outgoing (k := k)]
  exact fillLoop_outgoing _ rfl sendWindow_le

/-- Of the receiving side a flush changes `acklist` alone. -/
theorem filled_incoming : k.filled.incoming = { k.incoming with acks := [] } := by
  rw [← flushCommands_incoming]
  exact fillLoop_incoming _ _ _

/-- What comes after `snd_buf` is filled changes no number and no data. -/
theorem flush_outgoing_eq (hupdated : k.updated ≠ 0) :
    k.flush.1.outgoing = k.filled.outgoing := by
  rw [flush, if_neg hupdated]
  dsimp only
  rw [adjustCwnd_outgoing, sweep_outgoing]
  rfl

/-- The acknowledgements, and what the window commands carry of the last one. -/
theorem foldl_ack_eq (acks : List (UInt32 × UInt32)) (seg : Seg) :
    ∃ sn ts, acks.foldl Seg.ack seg = { seg with sn := sn, ts := ts } := by
  induction acks generalizing seg with
  | nil => exact ⟨seg.sn, seg.ts, rfl⟩
  | cons a acks ih =>
      obtain ⟨sn, ts, heq⟩ := ih (seg.ack a)
      exact ⟨sn, ts, by rw [List.foldl_cons, heq]; rfl⟩

/-- A segment of a flush is an acknowledgement, a window command, or one that is in flight. All of
them tell what has come. -/
theorem of_mem_flushSegs {s : Seg} (hs : s ∈ k.flushSegs) :
    s.una = k.rcvNxt ∧
      ((s.conv = k.conv ∧ s.frg = 0 ∧ s.data = [] ∧
        (s.cmd = cmdAck ∧ (s.sn, s.ts) ∈ k.acklist ∨ s.cmd = cmdWask ∨ s.cmd = cmdWins)) ∨
      s.core ∈ k.filled.outgoing.flight) := by
  rcases List.mem_append.mp hs with hs | hs
  · rcases List.mem_append.mp hs with hs | hs
    · obtain ⟨a, ha, rfl⟩ := List.mem_map.mp hs
      exact ⟨rfl, .inl ⟨rfl, rfl, rfl, .inl ⟨rfl, ha⟩⟩⟩
    · obtain ⟨sn, ts, heq⟩ := foldl_ack_eq k.acklist k.flushSeg
      unfold windowSegs at hs
      dsimp only at hs
      rw [heq] at hs
      rcases List.mem_append.mp hs with hs | hs
      · split at hs
        · rw [List.mem_singleton.mp hs]
          exact ⟨rfl, .inl ⟨rfl, rfl, rfl, .inr (.inl rfl)⟩⟩
        · cases hs
      · split at hs
        · rw [List.mem_singleton.mp hs]
          exact ⟨rfl, .inl ⟨rfl, rfl, rfl, .inr (.inr rfl)⟩⟩
        · cases hs
  · obtain ⟨t, ht, hdue⟩ := List.mem_filterMap.mp hs
    have hnxt : k.filled.rcvNxt = k.rcvNxt := congrArg Incoming.nxt filled_incoming
    unfold dueSeg at hdue
    dsimp only at hdue
    split at hdue
    · cases hdue
    · obtain rfl := Option.some.inj hdue
      have hcore : (k.filled.stamp k.flushSeg.wnd
          (k.filled.resend t (k.filled.due k.filled.resentOf t))).core = t.core := by
        cases k.filled.due k.filled.resentOf t <;> rfl
      refine ⟨hnxt, .inr ?_⟩
      rw [hcore]
      exact List.mem_map_of_mem ht

/-! ### What is read -/

/-- What `ikcp_input` does with the segments of a datagram. -/
def inputSegs (k : Kcp) (segs : List Seg) : Kcp :=
  let i := segs.foldl inputWire { kcp := k }
  (if i.flag then i.kcp.parseFastack i.maxack else i.kcp).growCwnd k.sndUna

/-- **Joined segments are read back.** -/
theorem input_join (hne : segs ≠ []) (hvalid : ∀ s ∈ segs, s.Valid k.conv) :
    k.input (join segs) = (0, k.inputSegs segs) := by
  have hlen : ¬ (join segs).length < overhead := by
    obtain ⟨s, rest, rfl⟩ := List.exists_cons_of_ne_nil hne
    rw [join_cons, List.length_append, length_wire]
    omega
  have hloop := inputLoop_join (i := { kcp := k }) hvalid
    (Nat.lt_succ_of_le (le_length_join segs))
  rw [input, if_neg hlen, hloop]
  rfl

end Kcp

end ArchNet.Udp

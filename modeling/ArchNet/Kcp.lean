import ArchNet.Bytes
import ArchNet.Lts
import ArchNet.Serial
import Mathlib.Data.List.Basic
import Mathlib.Data.Int.Notation

/-!
# The KCP Control Block

`ikcp.c`: automatic repeat request over datagrams. A control block numbers the segments of the
messages it is to send, keeps them until they are acknowledged, puts the segments that arrive into
their order, and hands out messages. It does no input or output of its own: `input` is given the
datagrams, and `flush` returns those to be sent.

## Conventions

* The queues are lists, and `len` of a segment is the length of its data. What `ikcp_send` leaves
  unwritten in a segment is zero here; `ikcp_flush` writes it before it is read.
* Memory is always there. The `int`s wrap, and so do the unsigned numbers, but not what counts
  bytes or entries of a list: the size that `ikcp_peeksize` and `ikcp_recv` add up in an `int`, the
  size of a datagram that `ikcp_input` casts to one, and `ackcount`.
* `Packer` is the buffer of a flush with the datagrams that it has handed to the output callback.
  The callback's result is ignored, and there is none for a datagram of no bytes.
* The block that a flush writes into is of `(mtu + 24) * 3` bytes, a product of 32 bits. When `mtu`
  has been lowered, or is so large that the product wraps, segments may go behind its end:
  `Packer.within` tells, and `run` is about the calls that stay inside. A flush that does not is
  given the datagrams that it would output in a block without an end.
* The logging, the callbacks' `user`, and the block of memory behind `acklist` are left out.
-/

open Bytes

namespace ArchNet.Udp

/-! ### Constants -/

def rtoNdl : UInt32 := 30
def rtoMin : UInt32 := 100
def rtoDef : UInt32 := 200
def rtoMax : UInt32 := 60000
def cmdPush : UInt32 := 81
def cmdAck : UInt32 := 82
def cmdWask : UInt32 := 83
def cmdWins : UInt32 := 84
def askSend : UInt32 := 1
def askTell : UInt32 := 2
def wndSnd : UInt32 := 32
def wndRcv : UInt32 := 128
def mtuDef : UInt32 := 1400
def intervalDef : UInt32 := 100
def overhead : ℕ := 24
def deadLinkDef : UInt32 := 20
def threshInit : UInt32 := 2
def threshMin : UInt32 := 2
def probeInit : UInt32 := 7000
def probeLimit : UInt32 := 120000
def fastackLimit : Int32 := 5

/-- `_itimediff`. -/
def itimediff (later earlier : UInt32) : ℤ := Serial.dist later earlier

/-- `_imin_`. -/
def imin (a b : UInt32) : UInt32 := if a ≤ b then a else b

/-- `_imax_`. -/
def imax (a b : UInt32) : UInt32 := if a ≥ b then a else b

/-- `_ibound_`. -/
def ibound (lower middle upper : UInt32) : UInt32 := imin (imax lower middle) upper

/-! ### Segments -/

/-- `IKCPSEG`. -/
structure Seg where
  conv : UInt32 := 0
  cmd : UInt32 := 0
  frg : UInt32 := 0
  wnd : UInt32 := 0
  ts : UInt32 := 0
  sn : UInt32 := 0
  una : UInt32 := 0
  data : List UInt8 := []
  resendts : UInt32 := 0
  rto : UInt32 := 0
  fastack : UInt32 := 0
  xmit : UInt32 := 0
  deriving DecidableEq, Repr

/-- `len`. -/
def Seg.len (s : Seg) : UInt32 := UInt32.ofNat s.data.length

/-- `ikcp_encode_seg`: the numbers as they lie in memory, with `cmd`, `frg` and `wnd` cut. -/
def Seg.encode (s : Seg) : List UInt8 :=
  hostBytes 4 s.conv.toNat ++ hostBytes 1 s.cmd.toNat ++ hostBytes 1 s.frg.toNat ++
    hostBytes 2 s.wnd.toNat ++ hostBytes 4 s.ts.toNat ++ hostBytes 4 s.sn.toNat ++
    hostBytes 4 s.una.toNat ++ hostBytes 4 s.len.toNat

/-- A datagram. -/
abbrev Datagram := List UInt8

/-- What `ikcp_input` decodes of a segment: its header, and the length that it gives. -/
structure Header where
  conv : UInt32
  cmd : UInt32
  frg : UInt32
  wnd : UInt32
  ts : UInt32
  sn : UInt32
  una : UInt32
  len : UInt32
  deriving DecidableEq, Repr

/-- The segment of a push. -/
def Header.toSeg (h : Header) (data : List UInt8) : Seg where
  conv := h.conv
  cmd := h.cmd
  frg := h.frg
  wnd := h.wnd
  ts := h.ts
  sn := h.sn
  una := h.una
  data := data

/-- The `len` bytes at `pos`, as a number. -/
def decodeAt (data : List UInt8) (pos len : ℕ) : UInt32 :=
  UInt32.ofNat (hostVal (span data pos len))

/-- The decoding of 24 bytes. -/
def decodeHeader (data : List UInt8) : Header where
  conv := decodeAt data 0 4
  cmd := decodeAt data 4 1
  frg := decodeAt data 5 1
  wnd := decodeAt data 6 2
  ts := decodeAt data 8 4
  sn := decodeAt data 12 4
  una := decodeAt data 16 4
  len := decodeAt data 20 4

/-! ### The control block -/

/-- `IKCPCB`. `ackcount` is the length of `acklist`. -/
structure Kcp where
  conv : UInt32
  mtu : UInt32
  mss : UInt32
  state : UInt32
  sndUna : UInt32
  sndNxt : UInt32
  rcvNxt : UInt32
  ssthresh : UInt32
  rxRttval : Int32
  rxSrtt : Int32
  rxRto : Int32
  rxMinrto : Int32
  sndWnd : UInt32
  rcvWnd : UInt32
  rmtWnd : UInt32
  cwnd : UInt32
  probe : UInt32
  current : UInt32
  interval : UInt32
  tsFlush : UInt32
  xmit : UInt32
  nrcvBuf : UInt32
  nsndBuf : UInt32
  nrcvQue : UInt32
  nsndQue : UInt32
  nodelay : UInt32
  updated : UInt32
  tsProbe : UInt32
  probeWait : UInt32
  deadLink : UInt32
  incr : UInt32
  sndQueue : List Seg
  rcvQueue : List Seg
  sndBuf : List Seg
  rcvBuf : List Seg
  acklist : List (UInt32 × UInt32)
  fastresend : Int32
  fastlimit : Int32
  nocwnd : Int32
  stream : Int32
  deriving DecidableEq, Repr

namespace Kcp

/-- `ikcp_create`. -/
def create (conv : UInt32) : Kcp where
  conv := conv
  mtu := mtuDef
  mss := mtuDef - UInt32.ofNat overhead
  state := 0
  sndUna := 0
  sndNxt := 0
  rcvNxt := 0
  ssthresh := threshInit
  rxRttval := 0
  rxSrtt := 0
  rxRto := rtoDef.toInt32
  rxMinrto := rtoMin.toInt32
  sndWnd := wndSnd
  rcvWnd := wndRcv
  rmtWnd := wndRcv
  cwnd := 0
  probe := 0
  current := 0
  interval := intervalDef
  tsFlush := intervalDef
  xmit := 0
  nrcvBuf := 0
  nsndBuf := 0
  nrcvQue := 0
  nsndQue := 0
  nodelay := 0
  updated := 0
  tsProbe := 0
  probeWait := 0
  deadLink := deadLinkDef
  incr := 0
  sndQueue := []
  rcvQueue := []
  sndBuf := []
  rcvBuf := []
  acklist := []
  fastresend := 0
  fastlimit := fastackLimit
  nocwnd := 0
  stream := 0

/-! ### Receiving -/

/-- The fragments of the first message of a queue, and what is behind them. -/
def takeMessage : List Seg → List Seg × List Seg
  | [] => ([], [])
  | s :: rest =>
      if s.frg = 0 then ([s], rest)
      else (s :: (takeMessage rest).1, (takeMessage rest).2)

/-- The sum of the lengths of segments. -/
def totalLen (l : List Seg) : ℕ := (l.map fun s => s.data.length).sum

/-- `ikcp_peeksize`. -/
def peeksize (k : Kcp) : ℤ :=
  match k.rcvQueue with
  | [] => -1
  | s :: _ =>
      if s.frg = 0 then s.data.length
      else if k.nrcvQue < s.frg + 1 then -1
      else totalLen (takeMessage k.rcvQueue).1

/-- The loop that moves segments from `rcv_buf` to `rcv_queue`. -/
def moveLoop : List Seg → Kcp → Kcp
  | [], k => k
  | s :: rest, k =>
      if s.sn = k.rcvNxt ∧ k.nrcvQue < k.rcvWnd then
        moveLoop rest { k with
          rcvBuf := rest
          nrcvBuf := k.nrcvBuf - 1
          rcvQueue := k.rcvQueue ++ [s]
          nrcvQue := k.nrcvQue + 1
          rcvNxt := k.rcvNxt + 1 }
      else k

/-- The segments that are next in order go to `rcv_queue`. -/
def moveReady (k : Kcp) : Kcp := moveLoop k.rcvBuf k

/-- The message is taken off `rcv_queue`, unless it is only looked at. -/
def dropMessage (k : Kcp) (len : ℤ) : Kcp :=
  if len < 0 then k
  else { k with
    rcvQueue := (takeMessage k.rcvQueue).2
    nrcvQue := k.nrcvQue - UInt32.ofNat (takeMessage k.rcvQueue).1.length }

/-- The other end is to be told the window. -/
def askWindow (k : Kcp) : Kcp := { k with probe := k.probe ||| askTell }

/-- A window that was closed is told to the other end when it is open again. -/
def tellWindow (k : Kcp) (recover : Bool) : Kcp :=
  if k.nrcvQue < k.rcvWnd ∧ recover then k.askWindow else k

/-- `ikcp_recv` into a buffer of `len` bytes; a negative `len` peeks. -/
def recv (k : Kcp) (len : ℤ) : ℤ × List UInt8 × Kcp :=
  if k.rcvQueue = [] then (-1, [], k)
  else if k.peeksize < 0 then (-2, [], k)
  else if k.peeksize > |len| then (-3, [], k)
  else
    let message := (takeMessage k.rcvQueue).1
    (totalLen message, message.flatMap Seg.data,
      (k.dropMessage len).moveReady.tellWindow (k.nrcvQue ≥ k.rcvWnd))

/-! ### Sending -/

/-- The pieces that `ikcp_send` cuts a message into. -/
def fragment (stream : Int32) (mss : ℕ) : ℕ → List UInt8 → List Seg
  | 0, _ => []
  | count + 1, buffer =>
      { frg := if stream = 0 then UInt32.ofNat count else 0, data := buffer.take mss } ::
        fragment stream mss count (buffer.drop mss)

/-- In streaming mode the last segment of `snd_queue` is filled up first. -/
def sendAppend (k : Kcp) (buffer : List UInt8) : Kcp × List UInt8 :=
  if k.stream = 0 then (k, buffer)
  else
    match k.sndQueue.getLast? with
    | none => (k, buffer)
    | some old =>
        if old.len < k.mss then
          let extend := min buffer.length (k.mss.toNat - old.data.length)
          ({ k with sndQueue := k.sndQueue.dropLast ++
              [{ data := old.data ++ buffer.take extend, frg := 0 }] },
            buffer.drop extend)
        else (k, buffer)

/-- How many pieces a message is cut into. -/
def pieces (mss len : ℕ) : ℕ := if len ≤ mss then 1 else (len + mss - 1) / mss

/-- The pieces go to the end of `snd_queue`. -/
def enqueue (k : Kcp) (count : ℕ) (buffer : List UInt8) : Kcp :=
  { k with
    sndQueue := k.sndQueue ++ fragment k.stream k.mss.toNat count buffer
    nsndQue := k.nsndQue + UInt32.ofNat count }

/-- `ikcp_send` of the first `len` bytes of a buffer. -/
def send (k : Kcp) (buffer : List UInt8) (len : ℤ) : ℤ × Kcp :=
  if len < 0 then (-1, k)
  else
    let appended := k.sendAppend (buffer.take len.toNat)
    let count := pieces k.mss.toNat appended.2.length
    if k.stream ≠ 0 ∧ appended.2.length = 0 then (0, appended.1)
    else if count ≥ wndRcv.toNat then (-2, appended.1)
    else (0, appended.1.enqueue count appended.2)

/-! ### Input -/

/-- `ikcp_update_ack`: the round-trip time, and the timeout that goes with it. -/
def updateAck (k : Kcp) (rtt : Int32) : Kcp :=
  let rttval :=
    if k.rxSrtt = 0 then rtt / 2
    else
      let delta := |(rtt - k.rxSrtt).toInt|
      Int32.ofInt (((3 * k.rxRttval).toInt + delta).tdiv 4)
  let srtt :=
    if k.rxSrtt = 0 then rtt
    else
      let srtt := (7 * k.rxSrtt + rtt) / 8
      if srtt < 1 then 1 else srtt
  let rto := srtt.toUInt32 + imax k.interval (4 * rttval).toUInt32
  { k with
    rxSrtt := srtt
    rxRttval := rttval
    rxRto := (ibound k.rxMinrto.toUInt32 rto rtoMax).toInt32 }

/-- `ikcp_shrink_buf`. -/
def shrinkBuf (k : Kcp) : Kcp :=
  match k.sndBuf with
  | s :: _ => { k with sndUna := s.sn }
  | [] => { k with sndUna := k.sndNxt }

/-- The loop of `ikcp_parse_ack`; `none` if nothing is removed. -/
def removeAcked (sn : UInt32) : List Seg → Option (List Seg)
  | [] => none
  | s :: rest =>
      if sn = s.sn then some rest
      else if itimediff sn s.sn < 0 then none
      else (removeAcked sn rest).map (s :: ·)

/-- The number is not one of a segment in flight. -/
def outside (k : Kcp) (sn : UInt32) : Prop :=
  itimediff sn k.sndUna < 0 ∨ itimediff sn k.sndNxt ≥ 0

instance (k : Kcp) (sn : UInt32) : Decidable (k.outside sn) :=
  inferInstanceAs (Decidable (_ ∨ _))

/-- `ikcp_parse_ack`. -/
def parseAck (k : Kcp) (sn : UInt32) : Kcp :=
  if k.outside sn then k
  else
    match removeAcked sn k.sndBuf with
    | none => k
    | some l => { k with sndBuf := l, nsndBuf := k.nsndBuf - 1 }

/-- `ikcp_parse_una`. -/
def parseUna (k : Kcp) (una : UInt32) : Kcp :=
  let rest := k.sndBuf.dropWhile fun s => itimediff una s.sn > 0
  { k with
    sndBuf := rest
    nsndBuf := k.nsndBuf - UInt32.ofNat (k.sndBuf.length - rest.length) }

/-- The loop of `ikcp_parse_fastack`. -/
def countSkipped (sn : UInt32) : List Seg → List Seg
  | [] => []
  | s :: rest =>
      if itimediff sn s.sn < 0 then s :: rest
      else if sn ≠ s.sn then { s with fastack := s.fastack + 1 } :: countSkipped sn rest
      else s :: countSkipped sn rest

/-- `ikcp_parse_fastack`. -/
def parseFastack (k : Kcp) (sn : UInt32) : Kcp :=
  if k.outside sn then k else { k with sndBuf := countSkipped sn k.sndBuf }

/-- `ikcp_ack_push`. -/
def ackPush (k : Kcp) (sn ts : UInt32) : Kcp := { k with acklist := k.acklist ++ [(sn, ts)] }

/-- The place of a segment in `rcv_buf` is searched from the back. -/
def insertData (k : Kcp) (newseg : Seg) : Kcp :=
  match Serial.insertBack (fun s => s.sn == newseg.sn)
      (fun s => decide (itimediff newseg.sn s.sn > 0)) newseg k.rcvBuf with
  | none => k
  | some l => { k with rcvBuf := l, nrcvBuf := k.nrcvBuf + 1 }

/-- `ikcp_parse_data`. -/
def parseData (k : Kcp) (newseg : Seg) : Kcp :=
  if itimediff newseg.sn (k.rcvNxt + k.rcvWnd) ≥ 0 ∨ itimediff newseg.sn k.rcvNxt < 0 then k
  else (k.insertData newseg).moveReady

/-- What one call of `ikcp_input` keeps: `flag`, `maxack` and `latest_ts`, with the block. -/
structure Input where
  kcp : Kcp
  flag : Bool := false
  maxack : UInt32 := 0
  latestTs : UInt32 := 0
  deriving DecidableEq, Repr

/-- The round-trip time of an acknowledgement, unless its time is still to come. -/
def ackTime (k : Kcp) (ts : UInt32) : Kcp :=
  if itimediff k.current ts ≥ 0 then k.updateAck (Int32.ofInt (itimediff k.current ts)) else k

/-- `IKCP_CMD_ACK`. -/
def inputAck (i : Input) (h : Header) : Input :=
  let k := ((i.kcp.ackTime h.ts).parseAck h.sn).shrinkBuf
  if i.flag = false ∨ itimediff h.sn i.maxack > 0 then ⟨k, true, h.sn, h.ts⟩
  else { i with kcp := k }

/-- `IKCP_CMD_PUSH`. -/
def inputPush (k : Kcp) (h : Header) (data : List UInt8) : Kcp :=
  if itimediff h.sn (k.rcvNxt + k.rcvWnd) < 0 then
    if itimediff h.sn k.rcvNxt ≥ 0 then (k.ackPush h.sn h.ts).parseData (h.toSeg data)
    else k.ackPush h.sn h.ts
  else k

/-- What every segment tells: the remote window, and the number before which all has come. -/
def inputHead (k : Kcp) (h : Header) : Kcp :=
  (({ k with rmtWnd := h.wnd } : Kcp).parseUna h.una).shrinkBuf

/-- What `ikcp_input` does for one segment with a command that it knows. -/
def inputSeg (i : Input) (h : Header) (data : List UInt8) : Input :=
  let i := { i with kcp := i.kcp.inputHead h }
  if h.cmd = cmdAck then inputAck i h
  else if h.cmd = cmdPush then { i with kcp := i.kcp.inputPush h data }
  else if h.cmd = cmdWask then { i with kcp := i.kcp.askWindow }
  else i

/-- The loop of `ikcp_input`. Each round takes 24 bytes or more, which bounds the rounds. -/
def inputLoop : ℕ → List UInt8 → Input → ℤ × Input
  | 0, _, i => (0, i)
  | fuel + 1, data, i =>
      if data.length < overhead then (0, i)
      else
        let h := decodeHeader data
        let data := data.drop overhead
        if h.conv ≠ i.kcp.conv then (-1, i)
        else if data.length < h.len.toNat ∨ h.len.toInt32 < 0 then (-2, i)
        else if h.cmd ≠ cmdPush ∧ h.cmd ≠ cmdAck ∧ h.cmd ≠ cmdWask ∧ h.cmd ≠ cmdWins then (-3, i)
        else
          inputLoop fuel (data.drop h.len.toNat) (inputSeg i h (data.take h.len.toNat))

/-- `cwnd` and `incr` after new data has been acknowledged. -/
def grown (k : Kcp) : UInt32 × UInt32 :=
  let (cwnd, incr) :=
    if k.cwnd < k.ssthresh then (k.cwnd + 1, k.incr + k.mss)
    else
      let incr := if k.incr < k.mss then k.mss else k.incr
      let incr := incr + (k.mss * k.mss / incr + k.mss / 16)
      if (k.cwnd + 1) * k.mss ≤ incr then
        ((incr + k.mss - 1) / (if k.mss > 0 then k.mss else 1), incr)
      else (k.cwnd, incr)
  if cwnd > k.rmtWnd then (k.rmtWnd, k.rmtWnd * k.mss) else (cwnd, incr)

/-- The congestion window grows when `snd_una` has moved. -/
def growCwnd (k : Kcp) (prevUna : UInt32) : Kcp :=
  if itimediff k.sndUna prevUna > 0 ∧ k.cwnd < k.rmtWnd then
    { k with cwnd := k.grown.1, incr := k.grown.2 }
  else k

/-- `ikcp_input`. -/
def input (k : Kcp) (data : List UInt8) : ℤ × Kcp :=
  if data.length < overhead then (-1, k)
  else
    match inputLoop (data.length + 1) data { kcp := k } with
    | (0, i) =>
        let k' := if i.flag then i.kcp.parseFastack i.maxack else i.kcp
        (0, k'.growCwnd k.sndUna)
    | (ret, i) => (ret, i.kcp)

/-! ### Flushing -/

/-- `ikcp_wnd_unused`. -/
def wndUnused (k : Kcp) : UInt32 := if k.nrcvQue < k.rcvWnd then k.rcvWnd - k.nrcvQue else 0

/-- The segment that `ikcp_flush` fills in for all that is no data. -/
def flushSeg (k : Kcp) : Seg where
  conv := k.conv
  cmd := cmdAck
  wnd := k.wndUnused
  una := k.rcvNxt

end Kcp

/-- The bytes that `ikcp_create` and `ikcp_setmtu` allocate for the buffer of a flush. -/
def capacity (mtu : UInt32) : ℕ := ((mtu + UInt32.ofNat overhead) * 3).toNat

/-- The buffer of a flush, and the datagrams that have been given to the output callback. So far no
byte has gone behind the block, and every `size + need` has been an `int`, if `within` is set. -/
structure Packer where
  buffer : List UInt8 := []
  sent : List Datagram := []
  within : Bool := true
  deriving DecidableEq, Repr

/-- `ikcp_output` of the buffer, which is then filled from its start. -/
def Packer.output (p : Packer) : Packer :=
  { p with
    buffer := []
    sent := if p.buffer.length = 0 then p.sent else p.sent ++ [p.buffer] }

/-- The bytes go to the buffer, which is output first where they would exceed `mtu`. -/
def Packer.put (p : Packer) (mtu : UInt32) (bytes : List UInt8) : Packer :=
  let size := p.buffer.length
  let p := if size + bytes.length > mtu.toNat then p.output else p
  { p with
    buffer := p.buffer ++ bytes
    within := p.within && decide (size + bytes.length < 2 ^ 31) &&
      decide (p.buffer.length + bytes.length ≤ capacity mtu) }

namespace Kcp

/-- The acknowledgements. The segment keeps the numbers of the last one. -/
def flushAcks (mtu : UInt32) : List (UInt32 × UInt32) → Seg → Packer → Seg × Packer
  | [], seg, p => (seg, p)
  | (sn, ts) :: rest, seg, p =>
      let seg := { seg with sn := sn, ts := ts }
      flushAcks mtu rest seg (p.put mtu seg.encode)

/-- While the remote window is closed, it is asked for after longer and longer waits. -/
def probeWindow (k : Kcp) : Kcp :=
  if k.rmtWnd = 0 then
    if k.probeWait = 0 then { k with probeWait := probeInit, tsProbe := k.current + probeInit }
    else if itimediff k.current k.tsProbe ≥ 0 then
      let wait := if k.probeWait < probeInit then probeInit else k.probeWait
      let wait := wait + wait / 2
      let wait := if wait > probeLimit then probeLimit else wait
      { k with probeWait := wait, tsProbe := k.current + wait, probe := k.probe ||| askSend }
    else k
  else { k with tsProbe := 0, probeWait := 0 }

/-- One of the two window commands, if `probe` asks for it. -/
def flushProbe (k : Kcp) (ask cmd : UInt32) (seg : Seg) (p : Packer) : Seg × Packer :=
  if k.probe &&& ask ≠ 0 then
    let seg := { seg with cmd := cmd }
    (seg, p.put k.mtu seg.encode)
  else (seg, p)

/-- The window of a flush. -/
def sendWindow (k : Kcp) : UInt32 :=
  let cwnd := imin k.sndWnd k.rmtWnd
  if k.nocwnd = 0 then imin k.cwnd cwnd else cwnd

/-- A segment of `snd_queue` as it goes to `snd_buf`. -/
def numbered (k : Kcp) (wnd : UInt32) (s : Seg) : Seg :=
  { s with
    conv := k.conv
    cmd := cmdPush
    wnd := wnd
    ts := k.current
    sn := k.sndNxt
    una := k.rcvNxt
    resendts := k.current
    rto := k.rxRto.toUInt32
    fastack := 0
    xmit := 0 }

/-- The loop that moves segments from `snd_queue` to `snd_buf`. -/
def fillLoop (cwnd wnd : UInt32) : List Seg → Kcp → Kcp
  | [], k => k
  | s :: rest, k =>
      if itimediff k.sndNxt (k.sndUna + cwnd) < 0 then
        fillLoop cwnd wnd rest { k with
          sndQueue := rest
          sndBuf := k.sndBuf ++ [k.numbered wnd s]
          nsndQue := k.nsndQue - 1
          nsndBuf := k.nsndBuf + 1
          sndNxt := k.sndNxt + 1 }
      else k

/-- Why `ikcp_flush` sends a segment. -/
inductive Due
  | first | timeout | fast | no
  deriving DecidableEq, Repr

/-- The three cases of the loop over `snd_buf`. -/
def due (k : Kcp) (resent : UInt32) (s : Seg) : Due :=
  if s.xmit = 0 then .first
  else if itimediff k.current s.resendts ≥ 0 then .timeout
  else if s.fastack ≥ resent ∧ (s.xmit.toInt32 ≤ k.fastlimit ∨ k.fastlimit ≤ 0) then .fast
  else .no

/-- The timeout of a segment that has not been acknowledged in time. -/
def backoff (k : Kcp) (rto : UInt32) : UInt32 :=
  if k.nodelay = 0 then rto + imax rto k.rxRto.toUInt32
  else
    let step := if k.nodelay < 2 then rto.toInt32 else k.rxRto
    rto + (step / 2).toUInt32

/-- A segment that is sent: its count, its timeout, and when it is sent again. -/
def resend (k : Kcp) (s : Seg) : Due → Seg
  | .first =>
      let rtomin := if k.nodelay = 0 then (k.rxRto >>> 3).toUInt32 else 0
      { s with
        xmit := s.xmit + 1
        rto := k.rxRto.toUInt32
        resendts := k.current + k.rxRto.toUInt32 + rtomin }
  | .timeout =>
      { s with
        xmit := s.xmit + 1
        rto := k.backoff s.rto
        resendts := k.current + k.backoff s.rto }
  | .fast => { s with xmit := s.xmit + 1, fastack := 0, resendts := k.current + s.rto }
  | .no => s

/-- The segment as it is sent, with the time and what is known of the other direction. -/
def stamp (k : Kcp) (wnd : UInt32) (s : Seg) : Seg :=
  { s with ts := k.current, wnd := wnd, una := k.rcvNxt }

/-- What the loop over `snd_buf` keeps: the two numbers of the block that it writes, `change` and
`lost`. -/
structure Sweep where
  packer : Packer
  xmit : UInt32
  state : UInt32
  change : ℕ := 0
  lost : Bool := false
  deriving DecidableEq, Repr

/-- One round of the loop over `snd_buf`. -/
def sweepSeg (k : Kcp) (resent wnd : UInt32) (s : Seg) (w : Sweep) : Seg × Sweep :=
  let d := k.due resent s
  if d = .no then (s, w)
  else
    let s := k.stamp wnd (k.resend s d)
    (s, { packer := w.packer.put k.mtu (s.encode ++ s.data)
          xmit := if d = .timeout then w.xmit + 1 else w.xmit
          state := if s.xmit ≥ k.deadLink then -1 else w.state
          change := if d = .fast then w.change + 1 else w.change
          lost := w.lost || decide (d = .timeout) })

/-- The loop over `snd_buf`. -/
def sweepLoop (k : Kcp) (resent wnd : UInt32) : List Seg → Sweep → List Seg × Sweep
  | [], w => ([], w)
  | s :: rest, w =>
      let (s, w) := k.sweepSeg resent wnd s w
      let (rest, w) := sweepLoop k resent wnd rest w
      (s :: rest, w)

/-- At least `IKCP_THRESH_MIN`. -/
def threshold (n : UInt32) : UInt32 := if n < threshMin then threshMin else n

/-- After fast resends the window is set to what was in flight. -/
def afterChange (k : Kcp) (resent : UInt32) : Kcp :=
  { k with
    ssthresh := threshold ((k.sndNxt - k.sndUna) / 2)
    cwnd := threshold ((k.sndNxt - k.sndUna) / 2) + resent
    incr := (threshold ((k.sndNxt - k.sndUna) / 2) + resent) * k.mss }

/-- After a timeout it starts again from one segment. -/
def afterLoss (k : Kcp) (cwnd : UInt32) : Kcp :=
  { k with ssthresh := threshold (cwnd / 2), cwnd := 1, incr := k.mss }

/-- The window is never empty after a flush. -/
def openWindow (k : Kcp) : Kcp := if k.cwnd < 1 then { k with cwnd := 1, incr := k.mss } else k

/-- `ssthresh` and `cwnd` at the end of a flush. -/
def adjustCwnd (k : Kcp) (cwnd resent : UInt32) (change : ℕ) (lost : Bool) : Kcp :=
  let k := if change ≠ 0 then k.afterChange resent else k
  (if lost then k.afterLoss cwnd else k).openWindow

/-- `resent`. -/
def resentOf (k : Kcp) : UInt32 := if k.fastresend > 0 then k.fastresend.toUInt32 else 0xffffffff

/-- The commands that a flush sends before the data, and the block when they are done. -/
def flushCommands (k : Kcp) : Kcp × Packer :=
  let acks := flushAcks k.mtu k.acklist k.flushSeg {}
  let k := ({ k with acklist := [] } : Kcp).probeWindow
  let asked := k.flushProbe askSend cmdWask acks.1 acks.2
  let told := k.flushProbe askTell cmdWins asked.1 asked.2
  ({ k with probe := 0 }, told.2)

/-- The pass over `snd_buf`. -/
def sweep (k : Kcp) (wnd : UInt32) (p : Packer) : Kcp × Sweep :=
  let swept := k.sweepLoop k.resentOf wnd k.sndBuf
    { packer := p, xmit := k.xmit, state := k.state }
  ({ k with sndBuf := swept.1, xmit := swept.2.xmit, state := swept.2.state }, swept.2)

/-- The block when all that the window allows has been numbered. -/
def fill (k : Kcp) (wnd : UInt32) : Kcp := fillLoop k.sendWindow wnd k.sndQueue k

/-- `ikcp_flush`, with the datagrams in the order of the callbacks. -/
def flush (k : Kcp) : Kcp × List Datagram :=
  if k.updated = 0 then (k, [])
  else
    let wnd := k.flushSeg.wnd
    let commands := k.flushCommands
    let cwnd := commands.1.sendWindow
    let swept := (commands.1.fill wnd).sweep wnd commands.2
    (swept.1.adjustCwnd cwnd swept.1.resentOf swept.2.change swept.2.lost,
      swept.2.packer.output.sent)

/-- The buffer at the end of a flush, before what is left in it is output. -/
def flushed (k : Kcp) : Packer :=
  ((k.flushCommands.1.fill k.flushSeg.wnd).sweep k.flushSeg.wnd k.flushCommands.2).2.packer

/-! ### The clock -/

/-- Two times so far apart that `ikcp_update` begins anew. -/
def far (a b : UInt32) : Prop := itimediff a b ≥ 10000 ∨ itimediff a b < -10000

instance (a b : UInt32) : Decidable (far a b) := inferInstanceAs (Decidable (_ ∨ _))

/-- `ikcp_update` sets the clock, and the first flush at the first call. -/
def setClock (k : Kcp) (current : UInt32) : Kcp :=
  let k := { k with current := current }
  let k := if k.updated = 0 then { k with updated := 1, tsFlush := current } else k
  if far k.current k.tsFlush then { k with tsFlush := k.current } else k

/-- The time of the flush after this one. -/
def schedule (k : Kcp) : Kcp :=
  let next := k.tsFlush + k.interval
  { k with tsFlush := if itimediff k.current next ≥ 0 then k.current + k.interval else next }

/-- `ikcp_update`. -/
def update (k : Kcp) (current : UInt32) : Kcp × List Datagram :=
  let k := k.setClock current
  if itimediff k.current k.tsFlush ≥ 0 then k.schedule.flush else (k, [])

/-- The loop of `ikcp_check`; `none` if a segment is due. -/
def nextPacket (current : UInt32) : List Seg → ℤ → Option ℤ
  | [], tm => some tm
  | s :: rest, tm =>
      let diff := itimediff s.resendts current
      if diff ≤ 0 then none else nextPacket current rest (if diff < tm then diff else tm)

/-- `ikcp_check`. -/
def check (k : Kcp) (current : UInt32) : UInt32 :=
  if k.updated = 0 then current
  else
    let tsFlush := if far current k.tsFlush then current else k.tsFlush
    if itimediff current tsFlush ≥ 0 then current
    else
      let tmFlush := itimediff tsFlush current
      match nextPacket current k.sndBuf 0x7fffffff with
      | none => current
      | some tmPacket =>
          let minimal := UInt32.ofInt (if tmPacket < tmFlush then tmPacket else tmFlush)
          let minimal := if minimal ≥ k.interval then k.interval else minimal
          current + minimal

/-! ### Settings -/

/-- `ikcp_setmtu`. -/
def setmtu (k : Kcp) (mtu : Int32) : ℤ × Kcp :=
  if mtu < 50 then (-1, k)
  else (0, { k with mtu := mtu.toUInt32, mss := mtu.toUInt32 - UInt32.ofNat overhead })

/-- The bounds of `interval`. -/
def clampInterval (interval : Int32) : UInt32 :=
  if interval > 5000 then 5000 else if interval < 10 then 10 else interval.toUInt32

/-- `ikcp_interval`. -/
def setInterval (k : Kcp) (interval : Int32) : Kcp := { k with interval := clampInterval interval }

/-- `ikcp_nodelay`. -/
def setNodelay (k : Kcp) (nodelay interval resend nc : Int32) : Kcp :=
  let k :=
    if nodelay ≥ 0 then
      { k with
        nodelay := nodelay.toUInt32
        rxMinrto := if nodelay ≠ 0 then rtoNdl.toInt32 else rtoMin.toInt32 }
    else k
  let k := if interval ≥ 0 then k.setInterval interval else k
  let k := if resend ≥ 0 then { k with fastresend := resend } else k
  if nc ≥ 0 then { k with nocwnd := nc } else k

/-- `ikcp_wndsize`. -/
def wndsize (k : Kcp) (sndwnd rcvwnd : Int32) : Kcp :=
  let k := if sndwnd > 0 then { k with sndWnd := sndwnd.toUInt32 } else k
  if rcvwnd > 0 then { k with rcvWnd := imax rcvwnd.toUInt32 wndRcv } else k

-- the equations of the loops are made here, once for all the modules that follow
section
attribute [local simp] takeMessage moveLoop fragment removeAcked countSkipped inputLoop flushAcks
  fillLoop sweepLoop nextPacket
end

/-! ### Runs -/

/-- A call of the interface of a block. -/
inductive Call
  | recv (len : ℤ)
  | send (buffer : List UInt8) (len : ℤ)
  | input (data : List UInt8)
  | update (current : UInt32)
  | flush
  | setmtu (mtu : Int32)
  | interval (interval : Int32)
  | nodelay (nodelay interval resend nc : Int32)
  | wndsize (sndwnd rcvwnd : Int32)
  deriving DecidableEq, Repr

/-- The block after a call, and what the call outputs. -/
def call (k : Kcp) : Call → Kcp × List Datagram
  | .recv len => ((k.recv len).2.2, [])
  | .send buffer len => ((k.send buffer len).2, [])
  | .input data => ((k.input data).2, [])
  | .update current => k.update current
  | .flush => k.flush
  | .setmtu mtu => ((k.setmtu mtu).2, [])
  | .interval n => (k.setInterval n, [])
  | .nodelay a b c d => (k.setNodelay a b c d, [])
  | .wndsize sndwnd rcvwnd => (k.wndsize sndwnd rcvwnd, [])

/-- A call as a step, which is always enabled. -/
def step (k : Kcp) (c : Call) : Option Kcp := some (k.call c).1

/-- The block that a call flushes, if it does. -/
def flushing (k : Kcp) : Call → Option Kcp
  | .flush => if k.updated = 0 then none else some k
  | .update current =>
      let k := k.setClock current
      if itimediff k.current k.tsFlush ≥ 0 then some k.schedule else none
  | _ => none

/-- A call writes nothing behind the block that is allocated for a flush. -/
def inBounds (k : Kcp) (c : Call) : Bool := (k.flushing c).all fun f => f.flushed.within

/-- What a call outputs, if it stays in bounds. -/
def outputs (k : Kcp) (c : Call) : Option (List Datagram) :=
  if k.inBounds c then some (k.call c).2 else none

/-- The block after a list of calls all of which stay in bounds. -/
def run (k : Kcp) (calls : List Call) : Option Kcp := Lts.execIf step inBounds k calls

end Kcp

end ArchNet.Udp

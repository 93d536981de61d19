import ArchNet.Kcp
import Mathlib.Data.List.TakeWhile
import Mathlib.Logic.Relation

/-!
# The Two Sides of a Control Block

A control block sends and receives, and the two have little to do with each other. Each side is
taken out of the block here, without the fields that only say when a segment is sent again, and
each function of `ikcp.c` becomes a run of a few small steps of the sides. What is to hold of a side
over whole runs is then a matter of these steps.

* `Outgoing`, `Incoming` — the sides; `Kcp.outgoing`, `Kcp.incoming` — those of a block.
* `Outgoing.Number` — a fragment gets its number.
* `Outgoing.Release P` — a segment with a number in `P` is released; the remote window, `snd_una`.
* `Incoming.Arrive`, `Incoming.Shift` — a segment goes to `rcv_buf`, or on to `rcv_queue`.

## Main results

* `flush_outgoing`, `inputSeg_outgoing`: what the calls do to the sending side.
* `inputPush_cases`, `recv_cases`: what they do to the receiving side.
* `run_invariant`: what each call keeps, a run keeps.
-/

open Bytes

namespace ArchNet.Udp

/-- What a segment carries of a message. -/
structure Frag where
  frg : UInt32
  data : List UInt8
  deriving DecidableEq, Repr

/-- The part of a message in a segment. -/
def Seg.frag (s : Seg) : Frag := ⟨s.frg, s.data⟩

/-- A segment without what each sending changes. -/
def Seg.core (s : Seg) : Seg where
  conv := s.conv
  cmd := s.cmd
  frg := s.frg
  sn := s.sn
  data := s.data

/-- The sending side: the connection and its sizes, `snd_una`, `snd_nxt`, `snd_buf` and `snd_queue`
with their counters, and the remote window. -/
structure Outgoing where
  conv : UInt32
  mtu : UInt32
  mss : UInt32
  stream : Int32
  una : UInt32
  nxt : UInt32
  flight : List Seg
  nflight : UInt32
  queue : List Frag
  nqueue : UInt32
  rmtWnd : UInt32

/-- The receiving side: `rcv_nxt`, `rcv_wnd`, `rcv_buf` and `rcv_queue` with their counters, and the
acknowledgements that are to be sent. -/
structure Incoming where
  nxt : UInt32
  wnd : UInt32
  early : List Seg
  nearly : UInt32
  queue : List Seg
  nqueue : UInt32
  acks : List (UInt32 × UInt32)

/-- The sending side of a block. -/
def Kcp.outgoing (k : Kcp) : Outgoing where
  conv := k.conv
  mtu := k.mtu
  mss := k.mss
  stream := k.stream
  una := k.sndUna
  nxt := k.sndNxt
  flight := k.sndBuf.map Seg.core
  nflight := k.nsndBuf
  queue := k.sndQueue.map Seg.frag
  nqueue := k.nsndQue
  rmtWnd := k.rmtWnd

/-- The receiving side of a block. -/
def Kcp.incoming (k : Kcp) : Incoming where
  nxt := k.rcvNxt
  wnd := k.rcvWnd
  early := k.rcvBuf
  nearly := k.nrcvBuf
  queue := k.rcvQueue
  nqueue := k.nrcvQue
  acks := k.acklist

/-! ### The small steps -/

/-- `snd_una` as `ikcp_shrink_buf` sets it. -/
def Outgoing.first (o : Outgoing) : UInt32 := (o.flight.head?.map Seg.sn).getD o.nxt

/-- A fragment with the number that it gets. -/
def Frag.seg (f : Frag) (conv sn : UInt32) : Seg where
  conv := conv
  cmd := cmdPush
  frg := f.frg
  sn := sn
  data := f.data

/-- The fragment in front of `snd_queue` gets the next number. -/
def Outgoing.number (o : Outgoing) (f : Frag) (rest : List Frag) : Outgoing :=
  { o with
    nxt := o.nxt + 1
    flight := o.flight ++ [f.seg o.conv o.nxt]
    nflight := o.nflight + 1
    queue := rest
    nqueue := o.nqueue - 1 }

/-- A fragment is numbered while the window has room. -/
inductive Outgoing.Number : Outgoing → Outgoing → Prop
  | mk (o : Outgoing) (f : Frag) (rest : List Frag) (cwnd : UInt32) :
      o.queue = f :: rest → cwnd ≤ o.rmtWnd → itimediff o.nxt (o.una + cwnd) < 0 →
        Number o (o.number f rest)

/-- The sending side is told something, and releases only numbers in `P`. -/
inductive Outgoing.Release (P : UInt32 → Prop) : Outgoing → Outgoing → Prop
  | release (o : Outgoing) (pre post : List Seg) (e : Seg) :
      o.flight = pre ++ e :: post → P e.sn →
        Release P o { o with flight := pre ++ post, nflight := o.nflight - 1 }
  | shrink (o : Outgoing) : Release P o { o with una := o.first }
  | remote (o : Outgoing) (wnd : UInt32) :
      wnd.toNat < 2 ^ 16 → Release P o { o with rmtWnd := wnd }

/-- Fragments are numbered. -/
abbrev Outgoing.Filled : Outgoing → Outgoing → Prop := Relation.ReflTransGen Outgoing.Number

/-- The sending side is told a number of things. -/
abbrev Outgoing.Told (P : UInt32 → Prop) : Outgoing → Outgoing → Prop :=
  Relation.ReflTransGen (Outgoing.Release P)

/-- The segment in front of `rcv_buf` is the next one, and goes to `rcv_queue`. -/
inductive Incoming.Shift : Incoming → Incoming → Prop
  | mk (i : Incoming) (s : Seg) (rest : List Seg) :
      i.early = s :: rest → s.sn = i.nxt → i.nqueue < i.wnd →
        Shift i { i with
          nxt := i.nxt + 1
          early := rest
          nearly := i.nearly - 1
          queue := i.queue ++ [s]
          nqueue := i.nqueue + 1 }

/-- A segment within the window goes to its place in `rcv_buf`, or is there already. -/
inductive Incoming.Arrive (s : Seg) : Incoming → Incoming → Prop
  | known (i : Incoming) : (∃ t ∈ i.early, t.sn = s.sn) → Arrive s i i
  | accept (i : Incoming) (l : List Seg) :
      Serial.insertBack (fun t => t.sn == s.sn) (fun t => decide (itimediff s.sn t.sn > 0)) s
        i.early = some l →
      0 ≤ itimediff s.sn i.nxt → itimediff s.sn (i.nxt + i.wnd) < 0 →
        Arrive s i { i with early := l, nearly := i.nearly + 1 }

/-- The segments that are next go to `rcv_queue`. -/
abbrev Incoming.Shifts : Incoming → Incoming → Prop := Relation.ReflTransGen Incoming.Shift

namespace Outgoing

variable {P Q : UInt32 → Prop} {o o' : Outgoing}

/-- What may be released may be widened. -/
theorem Release.mono (hPQ : ∀ n, P n → Q n) (h : Release P o o') : Release Q o o' := by
  cases h with
  | release pre post e hf hp => exact .release o pre post e hf (hPQ _ hp)
  | shrink => exact .shrink o
  | remote wnd hw => exact .remote o wnd hw

/-- The same of several things that it is told. -/
theorem Told.mono (hPQ : ∀ n, P n → Q n) (h : Told P o o') : Told Q o o' :=
  Relation.ReflTransGen.mono (fun _ _ hs => hs.mono hPQ) _ _ h

/-- The connection, the sizes and the mode are the same. -/
structure Same (o o' : Outgoing) : Prop where
  conv : o'.conv = o.conv
  mtu : o'.mtu = o.mtu
  mss : o'.mss = o.mss
  stream : o'.stream = o.stream

/-- What it is told sets no size. -/
theorem Told.same (h : Told P o o') : Same o o' := by
  induction h with
  | refl => exact ⟨rfl, rfl, rfl, rfl⟩
  | tail _ hs ih => cases hs <;> exact ⟨ih.conv, ih.mtu, ih.mss, ih.stream⟩

/-- What it is told does nothing to `snd_queue`. -/
theorem Told.queue_eq (h : Told P o o') : o'.queue = o.queue := by
  induction h with
  | refl => rfl
  | tail _ hs ih =>
      rw [← ih]
      cases hs <;> rfl

/-- Numbering sets no size. -/
theorem Filled.same (h : Filled o o') : Same o o' := by
  induction h with
  | refl => exact ⟨rfl, rfl, rfl, rfl⟩
  | tail _ hs ih => cases hs; exact ⟨ih.conv, ih.mtu, ih.mss, ih.stream⟩

/-- What is numbered leaves `snd_queue` in front. -/
theorem Filled.exists_moved (h : Filled o o') : ∃ moved, o.queue = moved ++ o'.queue := by
  induction h with
  | refl => exact ⟨[], rfl⟩
  | tail _ hs ih =>
      obtain ⟨moved, hmoved⟩ := ih
      cases hs with
      | mk f rest _ hq _ _ =>
          refine ⟨moved ++ [f], ?_⟩
          rw [hmoved, hq, List.append_assoc]
          rfl

/-- The numbers in front of the flight are released one after the other. -/
theorem Told.release (pre post : List Seg) (hf : o.flight = pre ++ post)
    (hP : ∀ e ∈ pre, P e.sn) :
    Told P o { o with flight := post, nflight := o.nflight - UInt32.ofNat pre.length } := by
  induction pre generalizing o with
  | nil =>
      obtain rfl : o.flight = post := hf
      have hcount : o.nflight - UInt32.ofNat 0 = o.nflight := UInt32.sub_zero _
      rw [List.length_nil, hcount]
  | cons e pre ih =>
      have hstep : Release P o _ := .release o [] (pre ++ post) e hf (hP e List.mem_cons_self)
      have hrest := ih (o := { o with flight := pre ++ post, nflight := o.nflight - 1 }) rfl
        (fun x hx => hP x (List.mem_cons_of_mem _ hx))
      have hcount : o.nflight - 1 - UInt32.ofNat pre.length =
          o.nflight - UInt32.ofNat (e :: pre).length := by
        rw [List.length_cons, UInt32.ofNat_add]
        grind
      rw [← hcount]
      exact .head hstep hrest

end Outgoing

/-- Segments that move on to `rcv_queue` leave the acknowledgements alone. -/
theorem Incoming.Shifts.acks_eq {i i' : Incoming} (h : Incoming.Shifts i i') :
    i'.acks = i.acks := by
  induction h with
  | refl => rfl
  | tail _ hs ih =>
      cases hs
      exact ih

/-- So does one that arrives: it has been pushed on `acklist` before. -/
theorem Incoming.Arrive.acks_eq {i i' : Incoming} {s : Seg} (h : Incoming.Arrive s i i') :
    i'.acks = i.acks := by
  cases h <;> rfl

namespace Kcp

variable {P : UInt32 → Prop} {k : Kcp}

/-! ### What the functions leave alone -/

/-- A round-trip time is a matter of the clock alone. -/
@[simp] theorem updateAck_outgoing (rtt : Int32) : (k.updateAck rtt).outgoing = k.outgoing := rfl

/-- The same on the receiving side. -/
@[simp] theorem updateAck_incoming (rtt : Int32) : (k.updateAck rtt).incoming = k.incoming := rfl

/-- A question for the window only sets `probe`. -/
@[simp] theorem askWindow_outgoing : k.askWindow.outgoing = k.outgoing := rfl

/-- The same on the receiving side. -/
@[simp] theorem askWindow_incoming : k.askWindow.incoming = k.incoming := rfl

/-- The time of an acknowledgement is no matter of the sending side. -/
@[simp] theorem ackTime_outgoing (ts : UInt32) : (k.ackTime ts).outgoing = k.outgoing := by
  unfold ackTime
  split <;> rfl

/-- Nor of the receiving side. -/
@[simp] theorem ackTime_incoming (ts : UInt32) : (k.ackTime ts).incoming = k.incoming := by
  unfold ackTime
  split <;> rfl

/-- `snd_una` is of the sending side. -/
@[simp] theorem shrinkBuf_incoming : k.shrinkBuf.incoming = k.incoming := by
  unfold shrinkBuf
  split <;> rfl

/-- An acknowledgement is for the sending side. -/
@[simp] theorem parseAck_incoming (sn : UInt32) : (k.parseAck sn).incoming = k.incoming := by
  unfold parseAck
  split
  · rfl
  · split <;> rfl

/-- So is the number before which all has come. -/
@[simp] theorem parseUna_incoming (una : UInt32) : (k.parseUna una).incoming = k.incoming := rfl

/-- So is the count of the segments that were skipped. -/
@[simp] theorem parseFastack_incoming (sn : UInt32) :
    (k.parseFastack sn).incoming = k.incoming := by
  unfold parseFastack
  split <;> rfl

/-- The congestion window belongs to neither side: it only bounds what is numbered. -/
@[simp] theorem growCwnd_outgoing (una : UInt32) : (k.growCwnd una).outgoing = k.outgoing := by
  unfold growCwnd
  split_ifs <;> rfl

/-- The same on the receiving side. -/
@[simp] theorem growCwnd_incoming (una : UInt32) : (k.growCwnd una).incoming = k.incoming := by
  unfold growCwnd
  split_ifs <;> rfl

/-- What moves on to `rcv_queue` is of the receiving side. -/
theorem moveLoop_outgoing (l : List Seg) : (moveLoop l k).outgoing = k.outgoing := by
  induction l generalizing k with
  | nil => rfl
  | cons s rest ih =>
      rw [moveLoop]
      split
      · rw [ih]
        rfl
      · rfl

/-- The same of the whole loop. -/
@[simp] theorem moveReady_outgoing : k.moveReady.outgoing = k.outgoing := moveLoop_outgoing _

/-- What goes to `rcv_buf` is of the receiving side. -/
@[simp] theorem insertData_outgoing (s : Seg) : (k.insertData s).outgoing = k.outgoing := by
  unfold insertData
  split <;> rfl

/-- `ikcp_parse_data` does nothing to the sending side. -/
@[simp] theorem parseData_outgoing (s : Seg) : (k.parseData s).outgoing = k.outgoing := by
  unfold parseData
  split
  · rfl
  · rw [moveReady_outgoing, insertData_outgoing]

/-- Nor does a push, which only adds to `acklist` besides. -/
@[simp] theorem inputPush_outgoing (h : Header) (data : List UInt8) :
    (k.inputPush h data).outgoing = k.outgoing := by
  unfold inputPush
  split_ifs
  · exact parseData_outgoing _
  · rfl
  · rfl

/-- A message that is taken off `rcv_queue` is no matter of the sending side. -/
@[simp] theorem dropMessage_outgoing (len : ℤ) : (k.dropMessage len).outgoing = k.outgoing := by
  unfold dropMessage
  split <;> rfl

/-- A window that is open again only sets `probe`. -/
@[simp] theorem tellWindow_outgoing (recover : Bool) :
    (k.tellWindow recover).outgoing = k.outgoing := by
  unfold tellWindow
  split <;> rfl

/-- The same on the receiving side. -/
@[simp] theorem tellWindow_incoming (recover : Bool) :
    (k.tellWindow recover).incoming = k.incoming := by
  unfold tellWindow
  split <;> rfl

/-- `ikcp_recv` does nothing to the sending side. -/
@[simp] theorem recv_outgoing (len : ℤ) : (k.recv len).2.2.outgoing = k.outgoing := by
  unfold recv
  split_ifs <;> simp only [tellWindow_outgoing, moveReady_outgoing, dropMessage_outgoing]

/-- The last step of a flush is about the congestion window. -/
theorem openWindow_outgoing : k.openWindow.outgoing = k.outgoing := by
  unfold openWindow outgoing
  split <;> rfl

/-- The same on the receiving side. -/
theorem openWindow_incoming : k.openWindow.incoming = k.incoming := by
  unfold openWindow incoming
  split <;> rfl

/-- So is all that a flush does after the data. -/
@[simp] theorem adjustCwnd_outgoing (cwnd resent : UInt32) (change : ℕ) (lost : Bool) :
    (k.adjustCwnd cwnd resent change lost).outgoing = k.outgoing := by
  rw [adjustCwnd, openWindow_outgoing]
  split_ifs <;> simp only [afterChange, afterLoss, outgoing]

/-- The same on the receiving side. -/
@[simp] theorem adjustCwnd_incoming (cwnd resent : UInt32) (change : ℕ) (lost : Bool) :
    (k.adjustCwnd cwnd resent change lost).incoming = k.incoming := by
  rw [adjustCwnd, openWindow_incoming]
  split_ifs <;> simp only [afterChange, afterLoss, incoming]

/-- The timer of the window probes belongs to neither side. -/
theorem probeWindow_outgoing : k.probeWindow.outgoing = k.outgoing := by
  unfold probeWindow outgoing
  split_ifs <;> rfl

/-- The same on the receiving side. -/
theorem probeWindow_incoming : k.probeWindow.incoming = k.incoming := by
  unfold probeWindow incoming
  split_ifs <;> rfl

/-- The commands of a flush do nothing to the sending side. -/
@[simp] theorem flushCommands_outgoing : k.flushCommands.1.outgoing = k.outgoing :=
  probeWindow_outgoing (k := { k with acklist := [] })

/-- They empty `acklist`. -/
@[simp] theorem flushCommands_incoming :
    k.flushCommands.1.incoming = { k.incoming with acks := [] } :=
  probeWindow_incoming (k := { k with acklist := [] })

/-- Numbering is of the sending side. -/
theorem fillLoop_incoming (cwnd wnd : UInt32) (l : List Seg) :
    (fillLoop cwnd wnd l k).incoming = k.incoming := by
  induction l generalizing k with
  | nil => rfl
  | cons s rest ih =>
      rw [fillLoop]
      split
      · rw [ih]
        rfl
      · rfl

/-- The loop over `snd_buf` changes no number and no data. -/
theorem sweepLoop_core (resent wnd : UInt32) (l : List Seg) (w : Sweep) :
    (k.sweepLoop resent wnd l w).1.map Seg.core = l.map Seg.core := by
  induction l generalizing w with
  | nil => rfl
  | cons s rest ih =>
      have hseg : (k.sweepSeg resent wnd s w).1.core = s.core := by
        unfold sweepSeg
        dsimp only
        split
        · rfl
        · cases k.due resent s <;> rfl
      simp only [sweepLoop, List.map_cons, hseg, ih]

/-! ### The sending side -/

/-- `ikcp_shrink_buf` sets `snd_una`, and nothing else. -/
theorem first_shrinkBuf : k.shrinkBuf.outgoing = { k.outgoing with una := k.outgoing.first } := by
  unfold shrinkBuf
  cases hl : k.sndBuf with
  | nil => simp [outgoing, Outgoing.first, hl]
  | cons s rest => simp [outgoing, Outgoing.first, Seg.core, hl]

/-- `ikcp_parse_una` releases the segments in front, up to the number that it is told. -/
theorem parseUna_outgoing (una : UInt32) :
    Outgoing.Told (fun n => itimediff una n > 0) k.outgoing (k.parseUna una).outgoing := by
  have hsplit := List.takeWhile_append_dropWhile
    (p := fun s : Seg => decide (itimediff una s.sn > 0)) (l := k.sndBuf)
  have hlen : k.sndBuf.length - (k.sndBuf.dropWhile fun s => itimediff una s.sn > 0).length =
      ((k.sndBuf.takeWhile fun s => itimediff una s.sn > 0).map Seg.core).length := by
    rw [List.length_map]
    have := congrArg List.length hsplit
    rw [List.length_append] at this
    omega
  rw [parseUna, hlen]
  refine Outgoing.Told.release (o := k.outgoing) _ _ ?_ ?_
  · rw [← List.map_append, hsplit]
    rfl
  · intro e he
    obtain ⟨s, hs, rfl⟩ := List.mem_map.mp he
    have hp := List.mem_takeWhile_imp hs
    exact of_decide_eq_true hp

/-- The loop of `ikcp_parse_ack` takes out one segment, which has the number looked for. -/
theorem removeAcked_eq_some {sn : UInt32} {l l' : List Seg} (h : removeAcked sn l = some l') :
    ∃ pre s post, l = pre ++ s :: post ∧ s.sn = sn ∧ l' = pre ++ post := by
  induction l generalizing l' with
  | nil => cases h
  | cons s rest ih =>
      rw [removeAcked] at h
      split_ifs at h with heq hlt
      · exact ⟨[], s, rest, rfl, heq.symm, (Option.some.inj h).symm⟩
      · obtain ⟨m, hm, rfl⟩ := Option.map_eq_some_iff.mp h
        obtain ⟨pre, t, post, rfl, ht, rfl⟩ := ih hm
        exact ⟨s :: pre, t, post, rfl, ht, rfl⟩

/-- `ikcp_parse_ack` releases the number that it is told, or nothing. -/
theorem parseAck_outgoing (sn : UInt32) :
    Outgoing.Told (· = sn) k.outgoing (k.parseAck sn).outgoing := by
  unfold parseAck
  split
  · exact .refl
  · split
    · exact .refl
    · next l hl =>
        obtain ⟨pre, s, post, hbuf, hsn, rfl⟩ := removeAcked_eq_some hl
        have hflight : k.outgoing.flight = pre.map Seg.core ++ s.core :: post.map Seg.core := by
          rw [outgoing, hbuf, List.map_append, List.map_cons]
        have hstep := Outgoing.Release.release (P := (· = sn)) k.outgoing _ _ _ hflight hsn
        rw [← List.map_append] at hstep
        exact .single hstep

/-- The loop of `ikcp_parse_fastack` changes counters only. -/
theorem countSkipped_core (sn : UInt32) (l : List Seg) :
    (countSkipped sn l).map Seg.core = l.map Seg.core := by
  induction l with
  | nil => rfl
  | cons s rest ih =>
      rw [countSkipped]
      split_ifs
      · rfl
      · rw [List.map_cons, ih]
        rfl
      · rw [List.map_cons, ih, List.map_cons]

/-- The counters of skips are no part of the sending side. -/
@[simp] theorem parseFastack_outgoing (sn : UInt32) :
    (k.parseFastack sn).outgoing = k.outgoing := by
  unfold parseFastack
  split
  · rfl
  · simp only [outgoing, countSkipped_core]

/-- A minimum is no more than its second argument. -/
theorem imin_le_right (a b : UInt32) : imin a b ≤ b := by
  unfold imin
  split
  · assumption
  · exact UInt32.le_refl b

/-- The window of a flush is no larger than that of the other end. -/
theorem sendWindow_le : k.sendWindow ≤ k.rmtWnd := by
  unfold sendWindow
  dsimp only
  split
  · exact UInt32.le_trans (imin_le_right _ _) (imin_le_right _ _)
  · exact imin_le_right _ _

/-- Each round of the loop that fills `snd_buf` numbers the fragment in front of `snd_queue`. -/
theorem fillLoop_outgoing {cwnd : UInt32} (wnd : UInt32) {l : List Seg} (hl : k.sndQueue = l)
    (hw : cwnd ≤ k.rmtWnd) :
    Outgoing.Filled k.outgoing (fillLoop cwnd wnd l k).outgoing := by
  induction l generalizing k with
  | nil => exact .refl
  | cons s rest ih =>
      rw [fillLoop]
      split
      · next hlt =>
          have hqueue : k.outgoing.queue = s.frag :: rest.map Seg.frag := by
            rw [outgoing, hl, List.map_cons]
          have hstep := Outgoing.Number.mk k.outgoing s.frag _ cwnd hqueue hw hlt
          have hnumber : k.outgoing.number s.frag (rest.map Seg.frag) =
              ({ k with
                sndQueue := rest
                sndBuf := k.sndBuf ++ [k.numbered wnd s]
                nsndQue := k.nsndQue - 1
                nsndBuf := k.nsndBuf + 1
                sndNxt := k.sndNxt + 1 } : Kcp).outgoing := by
            simp only [outgoing, Outgoing.number, List.map_append]
            rfl
          rw [hnumber] at hstep
          exact .head hstep (ih rfl hw)
      · exact .refl

/-- The pass over `snd_buf` sends, and changes no number and no data. -/
theorem sweep_outgoing (wnd : UInt32) (p : Packer) : (k.sweep wnd p).1.outgoing = k.outgoing := by
  simp only [sweep, outgoing, sweepLoop_core]

/-- **A flush numbers fragments** and does nothing else to the sending side. -/
theorem flush_outgoing : Outgoing.Filled k.outgoing k.flush.1.outgoing := by
  unfold flush
  split
  · exact .refl
  · dsimp only
    rw [adjustCwnd_outgoing, sweep_outgoing, ← flushCommands_outgoing (k := k)]
    exact fillLoop_outgoing _ rfl sendWindow_le

/-- All acknowledgements are sent in a flush, which leaves the rest of the receiving side alone. -/
theorem flush_incoming :
    k.flush.1.incoming = { k.incoming with acks := if k.updated = 0 then k.acklist else [] } := by
  unfold flush
  split
  · next hupdated => rfl
  · next hupdated =>
      dsimp only
      rw [adjustCwnd_incoming]
      exact (fillLoop_incoming _ _ _).trans flushCommands_incoming

/-- The two cases of an acknowledgement differ in what is kept for `ikcp_parse_fastack` alone. -/
theorem inputAck_kcp (i : Input) (h : Header) :
    (inputAck i h).kcp = ((i.kcp.ackTime h.ts).parseAck h.sn).shrinkBuf := by
  rw [inputAck, apply_ite Input.kcp, ite_self]

/-- What one segment of a datagram does to the block. -/
theorem inputSeg_kcp (i : Input) (h : Header) (data : List UInt8) :
    (inputSeg i h data).kcp =
      if h.cmd = cmdAck then (((i.kcp.inputHead h).ackTime h.ts).parseAck h.sn).shrinkBuf
      else if h.cmd = cmdPush then (i.kcp.inputHead h).inputPush h data
      else if h.cmd = cmdWask then (i.kcp.inputHead h).askWindow
      else i.kcp.inputHead h := by
  unfold inputSeg
  dsimp only
  rw [apply_ite Input.kcp, apply_ite Input.kcp, apply_ite Input.kcp, inputAck_kcp]

/-- The head of a segment tells the remote window, and releases what has come before `una`. -/
theorem inputHead_outgoing {h : Header} (hwnd : h.wnd.toNat < 2 ^ 16) :
    Outgoing.Told (fun n => itimediff h.una n > 0) k.outgoing (k.inputHead h).outgoing := by
  have hremote : Outgoing.Release (fun n => itimediff h.una n > 0) k.outgoing
      ({ k with rmtWnd := h.wnd } : Kcp).outgoing := .remote _ _ hwnd
  rw [inputHead, first_shrinkBuf]
  exact .tail (.head hremote (parseUna_outgoing h.una)) (.shrink _)

/-- What one segment of a datagram does to the sending side: it is told the remote window, and the
numbers that the segment acknowledges are released. -/
theorem inputSeg_outgoing (i : Input) {h : Header} (hwnd : h.wnd.toNat < 2 ^ 16)
    (data : List UInt8) :
    Outgoing.Told (fun n => itimediff h.una n > 0 ∨ h.cmd = cmdAck ∧ n = h.sn)
      i.kcp.outgoing (inputSeg i h data).kcp.outgoing := by
  have huna : Outgoing.Told (fun n => itimediff h.una n > 0 ∨ h.cmd = cmdAck ∧ n = h.sn)
      i.kcp.outgoing (i.kcp.inputHead h).outgoing :=
    (inputHead_outgoing hwnd).mono fun n hn => Or.inl hn
  rw [inputSeg_kcp]
  split_ifs with hack hpush hask
  · rw [first_shrinkBuf]
    refine .tail (huna.trans ?_) (.shrink _)
    rw [← ackTime_outgoing h.ts]
    exact (parseAck_outgoing h.sn).mono fun n hn => Or.inr ⟨hack, hn⟩
  · rw [inputPush_outgoing]
    exact huna
  · rw [askWindow_outgoing]
    exact huna
  · exact huna

/-! ### The receiving side -/

/-- Each round of the loop moves the segment in front of `rcv_buf`, which is the next one. -/
theorem moveLoop_incoming {l : List Seg} (hl : k.rcvBuf = l) :
    Incoming.Shifts k.incoming (moveLoop l k).incoming := by
  induction l generalizing k with
  | nil => exact .refl
  | cons s rest ih =>
      rw [moveLoop]
      split
      · next hnext =>
          have hstep : Incoming.Shift k.incoming _ := .mk k.incoming s rest hl hnext.1 hnext.2
          exact .head hstep (ih (k := { k with
            rcvBuf := rest
            nrcvBuf := k.nrcvBuf - 1
            rcvQueue := k.rcvQueue ++ [s]
            nrcvQue := k.nrcvQue + 1
            rcvNxt := k.rcvNxt + 1 }) rfl)
      · exact .refl

/-- The same of the whole loop. -/
theorem moveReady_incoming : Incoming.Shifts k.incoming k.moveReady.incoming :=
  moveLoop_incoming rfl

/-- A segment within the window arrives in `rcv_buf`. -/
theorem insertData_incoming {s : Seg} (hge : 0 ≤ itimediff s.sn k.rcvNxt)
    (hlt : itimediff s.sn (k.rcvNxt + k.rcvWnd) < 0) :
    Incoming.Arrive s k.incoming (k.insertData s).incoming := by
  unfold insertData
  split
  · next hnone =>
      obtain ⟨t, ht, hsame⟩ := Serial.exists_same_of_insertBack_eq_none hnone
      exact .known k.incoming ⟨t, ht, beq_iff_eq.mp hsame⟩
  · next l hl => exact .accept k.incoming l hl hge hlt

/-- A segment within the window arrives, and then those that are next are moved on. -/
theorem parseData_incoming {s : Seg} (hge : 0 ≤ itimediff s.sn k.rcvNxt)
    (hlt : itimediff s.sn (k.rcvNxt + k.rcvWnd) < 0) :
    ∃ i, Incoming.Arrive s k.incoming i ∧ Incoming.Shifts i (k.parseData s).incoming := by
  rw [parseData, if_neg (by omega)]
  exact ⟨_, insertData_incoming hge hlt, moveReady_incoming⟩

/-- The three cases of a push: it is beyond the window, or an old one that is acknowledged again, or
one that arrives. -/
theorem inputPush_cases (h : Header) (data : List UInt8) :
    k.inputPush h data = k ∨
    (itimediff h.sn k.rcvNxt < 0 ∧ k.inputPush h data = k.ackPush h.sn h.ts) ∨
    (0 ≤ itimediff h.sn k.rcvNxt ∧ itimediff h.sn (k.rcvNxt + k.rcvWnd) < 0 ∧
      k.inputPush h data = (k.ackPush h.sn h.ts).parseData (h.toSeg data)) := by
  unfold inputPush
  split_ifs with hlt hge
  · exact .inr (.inr ⟨hge, hlt, rfl⟩)
  · exact .inr (.inl ⟨by omega, rfl⟩)
  · exact .inl rfl

/-- The head of a segment does nothing to the receiving side. -/
theorem inputHead_incoming (h : Header) : (k.inputHead h).incoming = k.incoming := by
  rw [inputHead, shrinkBuf_incoming, parseUna_incoming]
  rfl

/-- Only a push does something to the receiving side. -/
theorem inputSeg_incoming (i : Input) (h : Header) (data : List UInt8) :
    (inputSeg i h data).kcp.incoming =
      if h.cmd = cmdPush then ((i.kcp.inputHead h).inputPush h data).incoming
      else i.kcp.incoming := by
  have hpush : cmdPush ≠ cmdAck := by decide
  rw [inputSeg_kcp]
  split_ifs with hack heq heq
  · exact absurd (heq.symm.trans hack) hpush
  · rw [shrinkBuf_incoming, parseAck_incoming, ackTime_incoming, inputHead_incoming]
  · rfl
  · rw [askWindow_incoming, inputHead_incoming]
  · rw [inputHead_incoming]

/-- `ikcp_recv` fails and changes nothing, or takes the first message, or only looks at it. -/
theorem recv_cases (len : ℤ) :
    ((k.recv len).1 < 0 ∧ (k.recv len).2.2 = k) ∨
    (k.rcvQueue ≠ [] ∧ 0 ≤ k.peeksize ∧ k.peeksize ≤ |len| ∧
      (k.recv len).1 = totalLen (takeMessage k.rcvQueue).1 ∧
      (k.recv len).2.1 = (takeMessage k.rcvQueue).1.flatMap Seg.data ∧
      Incoming.Shifts (k.dropMessage len).incoming (k.recv len).2.2.incoming) := by
  unfold recv
  split_ifs with hempty hneg hbig
  · exact .inl ⟨Int.negSucc_lt_zero _, rfl⟩
  · exact .inl ⟨Int.negSucc_lt_zero _, rfl⟩
  · exact .inl ⟨Int.negSucc_lt_zero _, rfl⟩
  · refine .inr ⟨hempty, by omega, by omega, rfl, rfl, ?_⟩
    rw [tellWindow_incoming]
    exact moveReady_incoming

/-! ### The calls -/

/-- `ikcp_update` writes the three fields of the clock, and `updated` is set afterwards. -/
theorem setClock_eq (current : UInt32) :
    ∃ updated tsFlush, updated ≠ 0 ∧ k.setClock current =
      { k with current := current, updated := updated, tsFlush := tsFlush } := by
  have hone : (1 : UInt32) ≠ 0 := by decide
  unfold setClock
  dsimp only
  split_ifs with hzero
  · exact ⟨_, _, hone, rfl⟩
  · exact ⟨_, _, hone, rfl⟩
  · exact ⟨_, _, hzero, rfl⟩
  · exact ⟨_, _, hzero, rfl⟩

/-- An update does nothing to the sides, or what a flush does. -/
theorem update_cases (current : UInt32) :
    ∃ updated tsFlush,
      let k' : Kcp := { k with current := current, updated := updated, tsFlush := tsFlush }
      k.update current = (k', []) ∨ k.update current = k'.flush := by
  obtain ⟨u, f, -, hclock⟩ := setClock_eq (k := k) current
  unfold update
  dsimp only
  rw [hclock]
  split
  · exact ⟨_, _, .inr rfl⟩
  · exact ⟨_, _, .inl rfl⟩

/-- `ikcp_nodelay` writes five settings. -/
theorem setNodelay_eq (nodelay interval resend nc : Int32) :
    ∃ a b c d e, k.setNodelay nodelay interval resend nc =
      { k with nodelay := a, rxMinrto := b, interval := c, fastresend := d, nocwnd := e } := by
  unfold setNodelay
  dsimp only
  split_ifs <;> exact ⟨_, _, _, _, _, rfl⟩

/-- `ikcp_setmtu` writes the two sizes, if anything. -/
theorem setmtu_eq (mtu : Int32) : ∃ a b, (k.setmtu mtu).2 = { k with mtu := a, mss := b } := by
  unfold setmtu
  split <;> exact ⟨_, _, rfl⟩

/-- `ikcp_wndsize` writes the two windows, the receive window never below `IKCP_WND_RCV`. -/
theorem wndsize_eq (sndwnd rcvwnd : Int32) :
    ∃ a, k.wndsize sndwnd rcvwnd =
      { k with
        sndWnd := a
        rcvWnd := if rcvwnd > 0 then imax rcvwnd.toUInt32 wndRcv else k.rcvWnd } := by
  unfold wndsize
  dsimp only
  split_ifs <;> exact ⟨_, rfl⟩

/-- A message is cut into as many pieces as were counted. -/
theorem length_fragment (stream : Int32) (mss count : ℕ) (buffer : List UInt8) :
    (fragment stream mss count buffer).length = count := by
  induction count generalizing buffer with
  | zero => rfl
  | succ count ih => rw [fragment, List.length_cons, ih]

/-- What is appended to the last segment of `snd_queue` adds no segment. -/
theorem sendAppend_eq (buffer : List UInt8) :
    ∃ l, (k.sendAppend buffer).1 = { k with sndQueue := l } ∧ l.length = k.sndQueue.length := by
  unfold sendAppend
  split
  · exact ⟨_, rfl, rfl⟩
  · split
    · exact ⟨_, rfl, rfl⟩
    · next old hold =>
        split
        · have hpos := List.length_pos_of_mem (List.mem_of_getLast? hold)
          refine ⟨_, rfl, ?_⟩
          rw [List.length_append, List.length_dropLast, List.length_singleton]
          omega
        · exact ⟨_, rfl, rfl⟩

/-- `ikcp_send` writes `snd_queue` and its counter. -/
theorem send_eq (buffer : List UInt8) (len : ℤ) :
    ∃ l n, (k.send buffer len).2 = { k with sndQueue := l, nsndQue := k.nsndQue + UInt32.ofNat n } ∧
      l.length = k.sndQueue.length + n := by
  have hzero : k.nsndQue + UInt32.ofNat 0 = k.nsndQue := UInt32.add_zero _
  obtain ⟨l, hl, hlen⟩ := sendAppend_eq (k := k) (buffer.take len.toNat)
  unfold send
  dsimp only
  rw [hl]
  split_ifs
  · exact ⟨k.sndQueue, 0, by rw [hzero], rfl⟩
  · exact ⟨l, 0, by rw [hzero], hlen⟩
  · exact ⟨l, 0, by rw [hzero], hlen⟩
  · refine ⟨_, _, rfl, ?_⟩
    rw [List.length_append, length_fragment, hlen]

end Kcp

/-- The numbers of a header that `ikcp_input` has read, within their widths. -/
structure Header.Narrow (h : Header) : Prop where
  cmd : h.cmd.toNat < 2 ^ 8
  frg : h.frg.toNat < 2 ^ 8
  wnd : h.wnd.toNat < 2 ^ 16

namespace Kcp

variable {k : Kcp}

/-- A number of `len` bytes is within its width. -/
theorem decodeAt_lt (data : List UInt8) (pos len : ℕ) :
    (decodeAt data pos len).toNat < 256 ^ len := by
  have hspan : (span data pos len).reverse.length ≤ len := by
    rw [List.length_reverse, span]
    exact List.length_take_le _ _
  have hval : hostVal (span data pos len) < 256 ^ len :=
    lt_of_lt_of_le (beVal_lt _) (Nat.pow_le_pow_right (by omega) hspan)
  rw [decodeAt, UInt32.toNat_ofNat']
  exact lt_of_le_of_lt (Nat.mod_le _ _) hval

/-- The short numbers of a header are within their widths. -/
theorem decodeHeader_narrow (data : List UInt8) : (decodeHeader data).Narrow where
  cmd := decodeAt_lt data 4 1
  frg := decodeAt_lt data 5 1
  wnd := decodeAt_lt data 6 2

/-- **The rule for the loop of `ikcp_input`**: what each segment keeps, a datagram keeps. -/
theorem inputLoop_invariant {I : Input → Prop}
    (hstep : ∀ {i h} data, I i → h.Narrow → I (inputSeg i h data)) {i : Input} (hi : I i)
    (fuel : ℕ) (data : List UInt8) : I (inputLoop fuel data i).2 := by
  induction fuel generalizing i data with
  | zero => exact hi
  | succ fuel ih =>
      rw [inputLoop]
      split_ifs
      · exact hi
      · dsimp only
        split_ifs
        · exact hi
        · exact hi
        · exact hi
        · exact ih (hstep _ hi (decodeHeader_narrow data)) _

/-- **The rule for `ikcp_input`**, for what the two steps at its end leave alone. -/
theorem input_invariant {I : Kcp → Prop}
    (hstep : ∀ {i : Input} {h} data, I i.kcp → h.Narrow → I (inputSeg i h data).kcp)
    (hfast : ∀ {k} sn, I k → I (k.parseFastack sn))
    (hgrow : ∀ {k} una, I k → I (k.growCwnd una)) (hk : I k) (data : List UInt8) :
    I (k.input data).2 := by
  unfold input
  split
  · exact hk
  · have hloop : I (inputLoop (data.length + 1) data { kcp := k }).2.kcp :=
      inputLoop_invariant (I := fun i => I i.kcp) (fun data hi hn => hstep data hi hn) hk _ _
    split
    · next i heq =>
        rw [heq] at hloop
        dsimp only
        split
        · exact hgrow _ (hfast _ hloop)
        · exact hgrow _ hloop
    · next i _ heq =>
        rw [heq] at hloop
        exact hloop

/-- The connection and the mode stay, and the sizes are set by `ikcp_setmtu` alone. -/
theorem call_same (c : Call) (hc : ∀ mtu, c ≠ .setmtu mtu) :
    Outgoing.Same k.outgoing (k.call c).1.outgoing := by
  have hrefl : Outgoing.Same k.outgoing k.outgoing := ⟨rfl, rfl, rfl, rfl⟩
  cases c with
  | recv len =>
      rw [call, recv_outgoing]
      exact hrefl
  | send buffer len =>
      obtain ⟨l, n, heq, -⟩ := send_eq (k := k) buffer len
      rw [call, heq]
      exact ⟨rfl, rfl, rfl, rfl⟩
  | input data =>
      refine input_invariant (I := fun k' => Outgoing.Same k.outgoing k'.outgoing) ?_ ?_ ?_ hrefl
        data
      · intro i h data hi hn
        have hseg := (inputSeg_outgoing i hn.wnd data).same
        exact ⟨hseg.conv.trans hi.conv, hseg.mtu.trans hi.mtu, hseg.mss.trans hi.mss,
          hseg.stream.trans hi.stream⟩
      · intro k' sn hk'
        rwa [parseFastack_outgoing]
      · intro k' una hk'
        rwa [growCwnd_outgoing]
  | update current =>
      obtain ⟨u, f, hupdate⟩ := update_cases (k := k) current
      rcases hupdate with heq | heq
      · rw [call, heq]
        exact ⟨rfl, rfl, rfl, rfl⟩
      · rw [call, heq]
        exact (flush_outgoing (k := { k with current := current, updated := u, tsFlush := f })).same
  | flush => exact flush_outgoing.same
  | setmtu mtu => exact absurd rfl (hc mtu)
  | interval n => exact hrefl
  | nodelay a b c d =>
      obtain ⟨_, _, _, _, _, heq⟩ := setNodelay_eq (k := k) a b c d
      rw [call, heq]
      exact hrefl
  | wndsize sndwnd rcvwnd =>
      obtain ⟨a, heq⟩ := wndsize_eq (k := k) sndwnd rcvwnd
      rw [call, heq]
      exact hrefl

/-- No call changes the connection or the mode. -/
theorem call_conv (c : Call) : (k.call c).1.conv = k.conv ∧ (k.call c).1.stream = k.stream := by
  by_cases hset : ∃ mtu, c = .setmtu mtu
  · obtain ⟨mtu, rfl⟩ := hset
    obtain ⟨a, b, heq⟩ := setmtu_eq (k := k) mtu
    rw [call, heq]
    exact ⟨rfl, rfl⟩
  · have hsame := call_same (k := k) c fun mtu heq => hset ⟨mtu, heq⟩
    exact ⟨hsame.conv, hsame.stream⟩

/-! ### Runs -/

/-- **The rule for a run of calls**: what each of its calls keeps, the run keeps. -/
theorem run_invariant {I : Kcp → Prop} {k' : Kcp} {calls : List Call}
    (h : k.run calls = some k') (hk : I k)
    (hcall : ∀ {k : Kcp} {c : Call}, c ∈ calls → I k → I (k.call c).1) : I k' := by
  refine Lts.invariant_of_execIf I hk ?_ h
  intro k k' c hc hk _ hstep
  obtain rfl := Option.some.inj hstep
  exact hcall hc hk

/-- A run is its first call and the run of the others. -/
theorem run_cons {k' : Kcp} {c : Call} {calls : List Call} (h : k.run (c :: calls) = some k') :
    (k.call c).1.run calls = some k' := by
  obtain ⟨k₁, hk₁, hrest⟩ := Option.bind_eq_some_iff.mp h
  obtain ⟨-, hk₁⟩ := Option.ite_none_right_eq_some.mp hk₁
  obtain rfl := Option.some.inj hk₁
  exact hrest

end Kcp

end ArchNet.Udp

import ArchNet.MuxFrames

/-!
# Deferred Replies

The receive fiber does not answer a frame itself: it queues a closure for the send fiber,
and the closure holds references. The answer to a ping refers to the one `Header` variable
of `recv_loop`, which the next frame overwrites; the RST of a refused stream refers to a
parameter of `incoming_stream`. What is sent is what these variables hold when the closure
runs.

## Main results

* `replies_of_reach`: **the replies are right** in every run in which the receive fiber,
  while an answer to a ping is queued on an open session, neither decodes a header with
  another `length` nor leaves its loop (`keepsHeader`). The condition says nothing about
  RST frames: a stream is refused only after `go_away`, which only a protocol error queues,
  and a protocol error ends the receive loop (`ReplyInv.goAway`).
* `two_pings_one_answer`: two pings in a row are both answered with the value of the second.
-/

namespace ArchNet.Session

open Lts

variable {s s' : Session} {a : Action} {r : Ref}

/-- The header that a reply is queued to send. -/
def reply : Task → Option Header
  | .pingAck len => some ⟨.ping, flagACK, 0, len⟩
  | .rst id => some ⟨.windowUpdate, flagRST, id, 0⟩
  | _ => none

/-- Every reply on the wire is the one that was queued. -/
def RepliesRight (s : Session) : Prop :=
  ∀ t f hdr, (some t, f) ∈ s.started → reply t = some hdr → f.hdr = hdr

/-- The header that the next bytes of the socket are; `none` if they are too few, or none. -/
def nextHeader (s : Session) : Option Header :=
  if s.source.bytes.length < headerSize then none
  else (Header.decode (s.source.bytes.take headerSize)).2

/-- The frame that the receive fiber handles ends its loop here: a go-away for another reason than
a normal end, a SYN for an id that is registered, an ACK that is not written, flags that are not
accepted, and a body that is empty or cut off. -/
def endsLoop (s : Session) : RecvAction → Bool
  | .dispatch =>
      match s.hdr.msgType with
      | .ping => false
      | .goAway => s.hdr.length != goAwayNormal
      | .data | .windowUpdate =>
          hasFlag s.hdr.flags flagSYN && !s.localGoaway && (s.streams s.hdr.streamId).isSome
  | .ackWrite n => n == 0
  | .processFlags =>
      match s.recvPc with
      | .flags r => (s.objs[r]?).any fun o =>
          if s.hdr.msgType = .windowUpdate then (o.increaseSendWindow s.hdr).isNone
          else !(o.readDataCheck s.hdr).isOk
      | _ => false
  | .readBody => s.hdr.length == 0 ||
      (decide (s.source.bytes.length < s.hdr.length.toNat) && s.source.ending == some .eof)
  | _ => false

/-- While an answer to a ping is queued on an open session, the header that the receive fiber reads
has the length to be answered, and no frame ends its loop. -/
def keepsHeader (s : Session) : Action → Bool
  | .recv b =>
      s.shutDown || s.sendChan.all fun
        | .pingAck len =>
            if b = .recvHeader then s.nextHeader.map Header.length == some len
            else !s.endsLoop b
        | _ => true
  | _ => true

/-- Bytes are decoded to a header, with a positive status, or refused. -/
theorem decode_cases (l : List UInt8) :
    (∃ ret ≤ 0, Header.decode l = (ret, none)) ∨ ∃ hdr, Header.decode l = (1, some hdr) := by
  rw [Header.decode]
  split_ifs
  · exact .inl ⟨-1, by decide, rfl⟩
  · split
    · exact .inl ⟨-2, by decide, rfl⟩
    · exact .inr ⟨_, rfl⟩

/-- What is decoded is the next header. -/
theorem nextHeader_of_decode {ret : ℤ} {hdr : Header} {src : Source}
    (h : recvAndDecode s.hdr s.source = some (ret, hdr, src)) :
    s.nextHeader = if 0 < ret then some hdr else none := by
  simp only [recvAndDecode, Option.bind_eq_bind, Option.bind_eq_some_iff] at h
  obtain ⟨⟨n, bytes, src'⟩, hread, h⟩ := h
  rw [nextHeader]
  by_cases hlen : s.source.bytes.length < headerSize
  · obtain ⟨e, cuts, -, hres⟩ := readNFromSocketStream_short hlen hread
    rw [Prod.mk.injEq, Prod.mk.injEq] at hres
    obtain ⟨rfl, -, -⟩ := hres
    simp only [if_pos e.answer_le, Option.some.injEq, Prod.mk.injEq] at h
    rw [if_pos hlen, ← h.1]
    rfl
  · obtain ⟨cuts, hfull⟩ := readNFromSocketStream_eq (by decide : 0 < headerSize)
      (by omega : headerSize ≤ s.source.bytes.length)
    rw [hfull, Option.some.injEq, Prod.mk.injEq, Prod.mk.injEq] at hread
    obtain ⟨rfl, rfl, -⟩ := hread
    have hpos : ¬ ((headerSize : ℤ) ≤ 0) := by decide
    rw [if_neg hlen]
    dsimp only at h
    rw [if_neg hpos] at h
    obtain ⟨status, hstatus, hdec⟩ | ⟨hdr', hdec⟩ := decode_cases (s.source.bytes.take headerSize)
    · rw [hdec, Option.some.injEq, Prod.mk.injEq] at h
      rw [hdec, if_neg (by rw [← h.1]; omega)]
    · rw [hdec, Option.some.injEq, Prod.mk.injEq, Prod.mk.injEq] at h
      rw [hdec, ← h.1, if_pos one_pos, ← h.2.1]
      rfl

/-- A body that is neither empty nor cut off by the peer does not end the loop. -/
theorem readDataBody_ne_err {o o' : MuxStream} {length : UInt32} {close : Bool} {ret : ℤ}
    {bytes : List UInt8} {src src' : Source}
    (h : readNFromSocketStream src length.toNat = some (ret, bytes, src')) (hne : length ≠ 0)
    (hcut : src.bytes.length < length.toNat → src.ending ≠ some .eof) :
    o.readDataBody length close ret bytes ≠ .err o' := by
  intro herr
  have hpos : 0 < length.toNat := Nat.pos_of_ne_zero fun hzero => hne (UInt32.toNat_inj.mp hzero)
  by_cases hlen : src.bytes.length < length.toNat
  · obtain ⟨e, cuts, hending, hres⟩ := readNFromSocketStream_short hlen h
    rw [Prod.mk.injEq] at hres
    cases e with
    | eof => exact hcut hlen hending
    | error =>
        -- the answer `-1` is no value that ends the loop
        have hwrap : ¬ UInt32.ofInt (-1) ≤ 0 := by decide
        rw [hres.1, MuxStream.readDataBody, StreamEnd.answer] at herr
        dsimp only at herr
        rw [if_neg hwrap] at herr
        split_ifs at herr
  · obtain ⟨cuts, hfull⟩ := readNFromSocketStream_eq hpos (Nat.le_of_not_lt hlen)
    rw [hfull, Option.some.injEq, Prod.mk.injEq] at h
    obtain ⟨d, e, hok⟩ := MuxStream.readDataBody_full o close bytes hne
    rw [← h.1, hok] at herr
    cases herr

/-- **A frame that does not end the loop** leaves the receive fiber in it, with its header. -/
theorem inLoop_of_endsLoop {b : RecvAction} (h : RecvCase s b s') (hd : s.shutDown = false)
    (hloop : inLoop s.recvPc = true) (hb : b ≠ .recvHeader) (hends : s.endsLoop b = false) :
    inLoop s'.recvPc = true ∧ s'.hdr = s.hdr := by
  cases h with
  | closedTop | decodeErr | decoded => exact absurd rfl hb
  | closedDecoded _ hshut => rw [hd] at hshut; cases hshut
  | goAwayErr _ _ htype hlen => simp [endsLoop, htype, hlen] at hends
  | sameId _ _ htype hsyn hlocal hsome =>
      rcases htype with htype | htype <;> simp [endsLoop, htype, hsyn, hlocal, hsome] at hends
  | ackErr => cases hends
  | updateErr hpc ho _ htype hnone => simp [endsLoop, hpc, ho, htype, hnone] at hends
  | checkErr hpc ho _ htype herr =>
      simp [endsLoop, hpc, ho, htype, herr, Except.isOk, Except.toBool] at hends
  | bodyErr _ _ _ hread herr =>
      simp only [endsLoop, Bool.or_eq_false_iff, beq_eq_false_iff_ne] at hends
      exact absurd herr (readDataBody_ne_err hread hends.1 (by simpa using hends.2))
  | bodyAbort => exact ⟨hloop, rfl⟩
  | exit hpc => rw [hpc] at hloop; cases hloop
  | @emplace r _ _ =>
      obtain ⟨m, he⟩ := s.acceptEmplace_frame r
      rw [he]
      exact ⟨rfl, rfl⟩
  | _ => exact ⟨rfl, rfl⟩

/-- What every step keeps: after a protocol error the loop is over, so no stream is refused;
a queued answer to a ping finds its value; the replies built and sent are right. -/
structure ReplyInv (s : Session) : Prop where
  goAway : s.localGoaway = true ∨ (∃ reason, .goAway reason ∈ s.sendChan) →
    handlerFailed s.recvPc = true
  noRst : ∀ id, .rst id ∉ s.sendChan
  queued : s.shutDown = false → ∀ len, .pingAck len ∈ s.sendChan →
    inLoop s.recvPc = true ∧ s.hdr.length = len
  built : ∀ t r f hdr, s.sendPc = .header t r f → reply t = some hdr → f.hdr = hdr
  sent : RepliesRight s

theorem ReplyInv.goAway_step (hinv : ReplyInv s) (h : s.step a = some s')
    (hg : s'.localGoaway = true ∨ ∃ reason, .goAway reason ∈ s'.sendChan) :
    handlerFailed s'.recvPc = true := by
  obtain hlocal | ⟨reason, hmem⟩ := hg
  · exact handlerFailed_of_step h (hinv.goAway (localGoaway_of_step h hlocal))
  · obtain hold | hq := mem_sendChan_of_step h hmem
    · exact handlerFailed_of_step h (hinv.goAway (.inr ⟨reason, hold⟩))
    · cases hq with
      | goAway hpc => rw [hpc]; rfl

/-- No stream is refused: the receive loop does not outlive a go-away. -/
theorem ReplyInv.noRst_step (hinv : ReplyInv s) (h : s.step a = some s') (id : UInt32) :
    .rst id ∉ s'.sendChan := by
  intro hmem
  obtain hold | hq := mem_sendChan_of_step h hmem
  · exact hinv.noRst id hold
  · cases hq with
    | rst hpc hlocal =>
        have hfailed := hinv.goAway (.inl hlocal)
        rw [hpc] at hfailed
        exact absurd hfailed (by simp [handlerFailed])

theorem ReplyInv.queued_step (hinv : ReplyInv s) (hC : keepsHeader s a = true)
    (h : s.step a = some s') (hd' : s'.shutDown = false) (len : UInt32)
    (hmem : .pingAck len ∈ s'.sendChan) :
    inLoop s'.recvPc = true ∧ s'.hdr.length = len := by
  have hd : s.shutDown = false := by
    cases hd : s.shutDown with
    | false => rfl
    | true => rw [← shutDown_of_step h hd, hd']
  obtain hold | hq := mem_sendChan_of_step h hmem
  · by_cases hrecv : ∃ b, a = .recv b
    · obtain ⟨b, rfl⟩ := hrecv
      simp only [keepsHeader, hd, Bool.false_or, List.all_eq_true] at hC
      have hkeeps := hC _ hold
      obtain ⟨hloop, hlen⟩ := hinv.queued hd len hold
      cases step_cases h with
      | recv hcase =>
          by_cases hb : b = .recvHeader
          · subst hb
            dsimp only at hkeeps
            rw [if_pos rfl, beq_iff_eq] at hkeeps
            cases hcase with
            | closedTop _ hshut => rw [hd] at hshut; cases hshut
            | decodeErr _ _ hdec hret =>
                rw [nextHeader_of_decode hdec, if_neg (by omega)] at hkeeps
                cases hkeeps
            | decoded _ _ hdec hret =>
                rw [nextHeader_of_decode hdec, if_pos hret] at hkeeps
                exact ⟨rfl, Option.some.inj hkeeps⟩
          · dsimp only at hkeeps
            rw [if_neg hb] at hkeeps
            obtain ⟨hloop', hhdr⟩ := inLoop_of_endsLoop hcase hd hloop hb (by simpa using hkeeps)
            exact ⟨hloop', by rw [hhdr, hlen]⟩
    · have hf := step_recvFrame h fun b hb => hrecv ⟨b, hb⟩
      rw [hf.recvPc, hf.hdr]
      exact hinv.queued hd len hold
  · cases hq with
    | pingAck _ hpc hhdr => rw [hpc, hhdr]; exact ⟨rfl, rfl⟩

/-- The task that runs builds the frame it was queued for. -/
theorem ReplyInv.built_step (hinv : ReplyInv s) (h : s.step a = some s') (t : Task) (r : Ref)
    (f : Frame) (hdr : Header) (hpc : s'.sendPc = .header t r f)
    (hreply : reply t = some hdr) : f.hdr = hdr := by
  obtain hold | ⟨hd, hmem, junk, hframe⟩ := header_of_step h hpc
  · exact hinv.built t r f hdr hold hreply
  · cases t with
    | pingAck len =>
        obtain ⟨hloop, hlen⟩ := hinv.queued hd len hmem
        rw [hframe _ _ rfl, ← Option.some.inj hreply]
        have hread : s.readHdrLength junk = s.hdr.length := by
          rw [readHdrLength]
          split
          · next heq => rw [heq] at hloop; exact absurd hloop (by simp [inLoop])
          · next heq => rw [heq] at hloop; exact absurd hloop (by simp [inLoop])
          · rfl
        rw [hread, hlen]
    | rst id => exact absurd hmem (hinv.noRst id)
    | _ => exact absurd hreply (by simp [reply])

theorem ReplyInv.sent_step (hinv : ReplyInv s) (h : s.step a = some s') :
    RepliesRight s' := by
  intro t f hdr hmem hreply
  obtain heq | ⟨x, f', hstart, heq⟩ := step_started h
  · exact hinv.sent t f hdr (heq ▸ hmem) hreply
  · rw [heq, List.mem_append, List.mem_singleton, Prod.mk.injEq] at hmem
    obtain hold | ⟨rfl, rfl⟩ := hmem
    · exact hinv.sent t f hdr hold hreply
    · cases hstart with
      | task _ hpc => exact hinv.built t _ f hdr hpc hreply

/-- **Every step that keeps the header keeps the replies right.** -/
theorem ReplyInv.step (hinv : ReplyInv s) (hC : keepsHeader s a = true)
    (h : s.step a = some s') : ReplyInv s' :=
  ⟨hinv.goAway_step h, hinv.noRst_step h, hinv.queued_step hC h, hinv.built_step h,
    hinv.sent_step h⟩

/-- **The replies are right as long as the header is kept.** In every run in which, while an
answer to a ping is queued on an open session, the receive fiber neither decodes a header
with another length nor leaves its loop, every Ping ACK on the wire carries the length of
the ping that queued it and every RST the id of the stream it refuses. -/
theorem replies_of_reach {type : MuxStreamType} {src : Source}
    (h : Reach Session.step keepsHeader (Session.init type src) s) : RepliesRight s := by
  have hinit : ReplyInv (Session.init type src) := by
    constructor <;> simp [Session.init, RepliesRight]
  exact (h.invariant ReplyInv hinit fun hinv hC hs => hinv.step hC hs).sent

/-- A peer that sends two pings. -/
def twoPings : Source :=
  { bytes := framesBytes [⟨⟨.ping, flagSYN, 0, 1⟩, none⟩, ⟨⟨.ping, flagSYN, 0, 2⟩, none⟩] }

/-- The theorem at a run that answers each of two pings before it reads on. -/
theorem replies_one_by_one :
    ∃ s, Reach Session.step keepsHeader (Session.init .server twoPings) s ∧
      s.started = [(some (.pingAck 1), ⟨⟨.ping, flagACK, 0, 1⟩, none⟩),
        (some (.pingAck 2), ⟨⟨.ping, flagACK, 0, 2⟩, none⟩)] ∧ RepliesRight s := by
  obtain ⟨s, hs, hstarted⟩ : ∃ s, Reach Session.step keepsHeader
      (Session.init .server twoPings) s ∧
      s.started = [(some (.pingAck 1), ⟨⟨.ping, flagACK, 0, 1⟩, none⟩),
        (some (.pingAck 2), ⟨⟨.ping, flagACK, 0, 2⟩, none⟩)] :=
    Reach.exists_of_exec [.recv .recvHeader, .recv .dispatch, .send (.runTask 0),
      .recv .recvHeader, .send (.writeHeader 12), .recv .dispatch, .send (.runTask 0),
      .send (.writeHeader 12)] (by decide +kernel)
  exact ⟨s, hs, hstarted, replies_of_reach hs⟩

/-- **The wrong answer**: when the second ping is decoded before the answer to the first is
sent, the first is answered with the value of the second. -/
theorem two_pings_one_answer :
    ∃ s, Reach Session.step always (Session.init .server twoPings) s ∧ ¬ RepliesRight s := by
  obtain ⟨s, hs, hstarted⟩ : ∃ s, Reach Session.step always
      (Session.init .server twoPings) s ∧
      s.started = [(some (.pingAck 1), ⟨⟨.ping, flagACK, 0, 2⟩, none⟩)] :=
    Reach.exists_of_exec [.recv .recvHeader, .recv .dispatch, .recv .recvHeader,
      .recv .dispatch, .send (.runTask 0), .send (.writeHeader 12)] (by decide +kernel)
  refine ⟨s, hs, fun hright => ?_⟩
  have heq := hright (.pingAck 1) ⟨⟨.ping, flagACK, 0, 2⟩, none⟩ _ (by simp [hstarted]) rfl
  exact absurd heq (by decide)

end ArchNet.Session

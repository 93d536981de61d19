import ArchNet.MuxSession

/-!
# What One Step of a Session Can Do

The step function of `ArchNet.MuxSession` read backwards: from an action and the fact that
it was enabled to the place the fiber was at, the branch conditions it met, and the state it
leads to. The invariants of the later modules go through these cases and never unfold the
step function.

## Main results

* `step_cases`: every step is one of the listed outcomes of one fiber (`RecvCase`,
  `SendCase`, `AppCase`, `KeepCase`, `CloseCase`).
-/

namespace ArchNet.Session

open MuxStream

variable {s s' : Session} {a : Action} {r : Ref} {o o' : MuxStream}

/-! ### Small functions -/

/-- A call on a stream object happens on an object that was handed out. -/
theorem onHanded_eq_some {k : MuxStream → Option Session} :
    s.onHanded r k = some s' ↔
      ∃ o, s.objs[r]? = some o ∧ o.handed = true ∧ k o = some s' := by
  rw [onHanded]
  cases s.objs[r]? with
  | none => simp
  | some o => cases ho : o.handed <;> simp [ho]

/-- The window of a new stream is full. -/
theorem delta_new : maxStreamWindowSize - UInt32.ofNat 0 - maxStreamWindowSize = 0 := by
  decide

/-- The stream object that `incoming_stream` makes, and the ACK it sends. -/
theorem sendWindowUpdate_accept (id : UInt32) :
    sendWindowUpdate { id := id, state := .synReceived } =
      (some ⟨.windowUpdate, flagACK, id, 0⟩, { id := id, state := .established }) := by
  have hflag : (flagACK == 0) = false := by decide
  simp only [sendWindowUpdate, sendFlags, List.length_nil, delta_new, hflag, Bool.and_false,
    Bool.false_eq_true, if_false, UInt32.add_zero]

/-- The stream object that `open_stream` makes, and the SYN it sends. -/
theorem sendWindowUpdate_open (id : UInt32) :
    sendWindowUpdate { id := id, state := .init } =
      (some ⟨.windowUpdate, flagSYN, id, 0⟩, { id := id, state := .synSent }) := by
  have hflag : (flagSYN == 0) = false := by decide
  simp only [sendWindowUpdate, sendFlags, List.length_nil, delta_new, hflag, Bool.and_false,
    Bool.false_eq_true, if_false, UInt32.add_zero]

/-- `send_message` on a session that is open. -/
theorem sendMessage_of_open {t : Task} {f : Frame} (hd : s.shutDown = false) :
    s.sendMessage t r f = { s with sendPc := .header t r f } := by
  rw [sendMessage, hd, if_neg Bool.false_ne_true]

/-- `send_message` on a session that is shut down. -/
theorem sendMessage_of_shut {t : Task} {f : Frame} (hd : s.shutDown = true) :
    s.sendMessage t r f = s.endTask t r false := by
  rw [sendMessage, hd, if_pos rfl]

/-! ### The receive fiber -/

/-- The steps of the receive fiber. -/
inductive RecvCase (s : Session) : RecvAction → Session → Prop
  | closedTop : s.recvPc = .top → s.shutDown = true →
      RecvCase s .recvHeader { s with recvPc := .done .closed }
  | decodeErr {ret : ℤ} {hdr : Header} {src : Source} : s.recvPc = .top →
      s.shutDown = false → recvAndDecode s.hdr s.source = some (ret, hdr, src) → ret ≤ 0 →
      RecvCase s .recvHeader { s with hdr := hdr, source := src, recvPc := .failed .decode }
  | decoded {ret : ℤ} {hdr : Header} {src : Source} : s.recvPc = .top →
      s.shutDown = false → recvAndDecode s.hdr s.source = some (ret, hdr, src) → 0 < ret →
      RecvCase s .recvHeader { s with hdr := hdr, source := src, recvPc := .decoded }
  | closedDecoded : s.recvPc = .decoded → s.shutDown = true →
      RecvCase s .dispatch { s with recvPc := .done .closed }
  | pingSyn : s.recvPc = .decoded → s.shutDown = false → s.hdr.msgType = .ping →
      RecvCase s .dispatch (s.addSendTask (.pingAck s.hdr.length)).handledFrame
  | pong {pings : UInt32 → Option ℕ} : s.recvPc = .decoded → s.shutDown = false →
      s.hdr.msgType = .ping → RecvCase s .dispatch { s with pings := pings }.handledFrame
  | goAway : s.recvPc = .decoded → s.shutDown = false → s.hdr.msgType = .goAway →
      RecvCase s .dispatch { s with remoteGoaway := true }.handledFrame
  | goAwayErr : s.recvPc = .decoded → s.shutDown = false → s.hdr.msgType = .goAway →
      s.hdr.length ≠ goAwayNormal →
      RecvCase s .dispatch { s with recvPc := .failed .handler }
  | noSyn : s.recvPc = .decoded → s.shutDown = false →
      s.hdr.msgType = .data ∨ s.hdr.msgType = .windowUpdate →
      hasFlag s.hdr.flags flagSYN = false →
      RecvCase s .dispatch { s with recvPc := .lookup }
  | refused : s.recvPc = .decoded → s.shutDown = false →
      s.hdr.msgType = .data ∨ s.hdr.msgType = .windowUpdate →
      hasFlag s.hdr.flags flagSYN = true → s.localGoaway = true →
      RecvCase s .dispatch
        { s.addSendTask (.rst s.hdr.streamId) with recvPc := .rstReturn }
  | sameId : s.recvPc = .decoded → s.shutDown = false →
      s.hdr.msgType = .data ∨ s.hdr.msgType = .windowUpdate →
      hasFlag s.hdr.flags flagSYN = true → s.localGoaway = false →
      (s.streams s.hdr.streamId).isSome = true →
      RecvCase s .dispatch s.protoErr
  | accept : s.recvPc = .decoded → s.shutDown = false →
      s.hdr.msgType = .data ∨ s.hdr.msgType = .windowUpdate →
      hasFlag s.hdr.flags flagSYN = true → s.streams s.hdr.streamId = none →
      RecvCase s .dispatch { s with
        objs := s.objs ++ [{ id := s.hdr.streamId, state := .established }]
        recvPc := .ack s.objs.length { hdr := ⟨.windowUpdate, flagACK, s.hdr.streamId, 0⟩ } }
  | rstReturn : s.recvPc = .rstReturn →
      RecvCase s .rstReturn { s with recvPc := .lookup }
  | ackErr {r : Ref} {f : Frame} : s.recvPc = .ack r f →
      RecvCase s (.ackWrite 0) { s with recvPc := .failed .handler }
  | ackWrite {r : Ref} {f : Frame} {n : ℕ} : s.recvPc = .ack r f → s.sockClosed = false →
      0 < n → n ≤ headerSize →
      RecvCase s (.ackWrite n) { s with
        out := s.out ++ f.hdr.encode.take n
        started := s.started ++ [(none, f)]
        recvPc := .emplace r }
  | emplace {r : Ref} : s.recvPc = .emplace r → s.muxLocked = false →
      RecvCase s .emplace (s.acceptEmplace r)
  | found {r : Ref} : s.recvPc = .lookup → s.muxLocked = false →
      s.streams s.hdr.streamId = some r → RecvCase s .lookup { s with recvPc := .flags r }
  | unknownBody : s.recvPc = .lookup → s.muxLocked = false →
      s.streams s.hdr.streamId = none → s.hdr.msgType = .data → 0 < s.hdr.length →
      RecvCase s .lookup { s with recvPc := .discard }
  | unknown : s.recvPc = .lookup → s.muxLocked = false →
      s.streams s.hdr.streamId = none → ¬ (s.hdr.msgType = .data ∧ 0 < s.hdr.length) →
      RecvCase s .lookup s.handledFrame
  | updateErr {r : Ref} {o : MuxStream} : s.recvPc = .flags r → s.objs[r]? = some o →
      o.stateLock = false → s.hdr.msgType = .windowUpdate →
      o.increaseSendWindow s.hdr = none → RecvCase s .processFlags s.protoErr
  | update {r : Ref} {o o' : MuxStream} : s.recvPc = .flags r → s.objs[r]? = some o →
      o.stateLock = false → s.hdr.msgType = .windowUpdate →
      o.increaseSendWindow s.hdr = some o' →
      RecvCase s .processFlags (s.modObj r fun _ => o').handledFrame
  | checkErr {r : Ref} {o o' : MuxStream} : s.recvPc = .flags r → s.objs[r]? = some o →
      o.stateLock = false → s.hdr.msgType ≠ .windowUpdate →
      o.readDataCheck s.hdr = .error o' →
      RecvCase s .processFlags (s.modObj r fun _ => o').protoErr
  | check {r : Ref} {close : Bool} {o o' : MuxStream} : s.recvPc = .flags r →
      s.objs[r]? = some o → o.stateLock = false → s.hdr.msgType ≠ .windowUpdate →
      o.readDataCheck s.hdr = .ok (close, o') →
      RecvCase s .processFlags { s.modObj r (fun _ => o') with recvPc := .body r close }
  | body {r : Ref} {close : Bool} {o o' : MuxStream} {ret : ℤ} {bytes : List UInt8}
      {src : Source} : s.recvPc = .body r close → s.objs[r]? = some o → o.recvLock = false →
      readNFromSocketStream s.source s.hdr.length.toNat = some (ret, bytes, src) →
      o.readDataBody s.hdr.length close ret bytes = .ok o' →
      RecvCase s .readBody ({ s with source := src }.modObj r fun _ => o').handledFrame
  | bodyErr {r : Ref} {close : Bool} {o o' : MuxStream} {ret : ℤ} {bytes : List UInt8}
      {src : Source} : s.recvPc = .body r close → s.objs[r]? = some o → o.recvLock = false →
      readNFromSocketStream s.source s.hdr.length.toNat = some (ret, bytes, src) →
      o.readDataBody s.hdr.length close ret bytes = .err o' →
      RecvCase s .readBody ({ s with source := src }.modObj r fun _ => o').protoErr
  | bodyAbort {r : Ref} {close : Bool} {o : MuxStream} {ret : ℤ} {bytes : List UInt8}
      {src : Source} : s.recvPc = .body r close → s.objs[r]? = some o → o.recvLock = false →
      readNFromSocketStream s.source s.hdr.length.toNat = some (ret, bytes, src) →
      o.readDataBody s.hdr.length close ret bytes = .abort →
      RecvCase s .readBody { s with aborted := true }
  | discard {ret : ℤ} {bytes : List UInt8} {src : Source} : s.recvPc = .discard →
      readNFromSocketStream s.source s.hdr.length.toNat = some (ret, bytes, src) →
      RecvCase s .discard { s with source := src }.handledFrame
  | exit {why : LoopEnd} : s.recvPc = .failed why →
      RecvCase s .exit { s.beginClose with recvPc := .done why }

/-- The top of the loop. -/
theorem recvHeader_cases (hpc : s.recvPc = .top) (h : s.recvHeader = some s') :
    RecvCase s .recvHeader s' := by
  rw [recvHeader] at h
  split at h
  · next hd =>
      rw [← Option.some.inj h]
      exact .closedTop hpc hd
  · next hd =>
      rw [Bool.not_eq_true] at hd
      obtain ⟨⟨ret, hdr, src⟩, hdec, rfl⟩ := Option.map_eq_some_iff.mp h
      dsimp only
      split
      · next hret => exact .decodeErr hpc hd hdec hret
      · next hret => exact .decoded hpc hd hdec (by omega)

/-- The SYN branch of `handle_stream_message`. -/
theorem incomingStream_cases (hpc : s.recvPc = .decoded) (hd : s.shutDown = false)
    (htype : s.hdr.msgType = .data ∨ s.hdr.msgType = .windowUpdate)
    (hsyn : hasFlag s.hdr.flags flagSYN = true) :
    RecvCase s .dispatch (s.incomingStream s.hdr.streamId) := by
  rw [incomingStream]
  split
  · next hlocal => exact .refused hpc hd htype hsyn hlocal
  · next hlocal =>
    split
    · next hsome => exact .sameId hpc hd htype hsyn (by simpa using hlocal) hsome
    · next hnone =>
        rw [sendWindowUpdate_accept]
        exact .accept hpc hd htype hsyn (by simpa using hnone)

/-- The switch on the message type. -/
theorem dispatch_cases (hpc : s.recvPc = .decoded) : RecvCase s .dispatch s.dispatch := by
  rw [dispatch]
  split
  · next hd => exact .closedDecoded hpc hd
  · next hd =>
      rw [Bool.not_eq_true] at hd
      have hstream : s.hdr.msgType = .data ∨ s.hdr.msgType = .windowUpdate →
          RecvCase s .dispatch s.handleStreamMessage := fun htype => by
        rw [handleStreamMessage]
        split
        · next hsyn => exact incomingStream_cases hpc hd htype hsyn
        · next hsyn => exact .noSyn hpc hd htype (by simpa using hsyn)
      cases htype : s.hdr.msgType with
      | data => exact hstream (.inl htype)
      | windowUpdate => exact hstream (.inr htype)
      | ping =>
          dsimp only
          rw [handlePing]
          split
          · exact .pingSyn hpc hd htype
          · split
            · exact .pong hpc hd htype
            · exact RecvCase.pong hpc hd htype
      | goAway =>
          dsimp only
          rw [handleGoAway]
          split
          · exact .goAway hpc hd htype
          · next hlen => exact .goAwayErr hpc hd htype hlen

/-- The registry look-up of `handle_stream_message`. -/
theorem lookup_cases (hpc : s.recvPc = .lookup) (hmux : s.muxLocked = false) :
    RecvCase s .lookup s.lookup := by
  rw [lookup]
  split
  · next hr => exact .found hpc hmux hr
  · next hr =>
      split
      · next hb => exact .unknownBody hpc hmux hr hb.1 hb.2
      · next hb => exact .unknown hpc hmux hr hb

/-- `increase_send_window` and the first half of `read_data`. -/
theorem handleFlags_cases (hpc : s.recvPc = .flags r) (ho : s.objs[r]? = some o)
    (hlock : o.stateLock = false) : RecvCase s .processFlags (s.handleFlags r o) := by
  rw [handleFlags]
  split
  · next htype =>
      split
      · next h => exact .updateErr hpc ho hlock htype h
      · next h => exact .update hpc ho hlock htype h
  · next htype =>
      split
      · next h => exact .checkErr hpc ho hlock htype h
      · next h => exact .check hpc ho hlock htype h

/-- The second half of `read_data`. -/
theorem readBody_cases {close : Bool} (hpc : s.recvPc = .body r close)
    (ho : s.objs[r]? = some o) (hlock : o.recvLock = false)
    (h : s.readBody r close o = some s') : RecvCase s .readBody s' := by
  rw [readBody] at h
  obtain ⟨⟨ret, bytes, src⟩, hread, rfl⟩ := Option.map_eq_some_iff.mp h
  dsimp only
  split
  · next hb => exact .body hpc ho hlock hread hb
  · next hb => exact .bodyErr hpc ho hlock hread hb
  · next hb => exact .bodyAbort hpc ho hlock hread hb

theorem recvStep_cases {b : RecvAction} (h : s.recvStep b = some s') : RecvCase s b s' := by
  cases b with
  | recvHeader =>
      simp only [recvStep, Option.ite_none_right_eq_some] at h
      exact recvHeader_cases h.1 h.2
  | dispatch =>
      simp only [recvStep, Option.ite_none_right_eq_some, Option.some.injEq] at h
      obtain ⟨hpc, rfl⟩ := h
      exact dispatch_cases hpc
  | rstReturn =>
      simp only [recvStep, Option.ite_none_right_eq_some, Option.some.injEq] at h
      obtain ⟨hpc, rfl⟩ := h
      exact .rstReturn hpc
  | ackWrite n =>
      simp only [recvStep] at h
      split at h
      · next r f hpc =>
          simp only [Option.ite_none_right_eq_some, Option.some.injEq] at h
          obtain ⟨⟨hn, hsock⟩, rfl⟩ := h
          rw [Session.ackWrite]
          split
          · next hn0 => exact hn0 ▸ .ackErr hpc
          · next hn0 =>
              exact .ackWrite hpc (by simpa [hn0] using hsock) (by omega) hn
      · exact absurd h (by simp)
  | emplace =>
      simp only [recvStep] at h
      split at h
      · next r hpc =>
          simp only [Option.ite_none_left_eq_some, Option.some.injEq] at h
          obtain ⟨hmux, rfl⟩ := h
          exact .emplace hpc (by simpa using hmux)
      · exact absurd h (by simp)
  | lookup =>
      simp only [recvStep, Option.ite_none_right_eq_some, Option.some.injEq] at h
      obtain ⟨⟨hpc, hmux⟩, rfl⟩ := h
      exact lookup_cases hpc hmux
  | processFlags =>
      simp only [recvStep] at h
      split at h
      · next r hpc =>
          split at h
          · next o ho =>
              simp only [Option.ite_none_left_eq_some, Option.some.injEq] at h
              obtain ⟨hlock, rfl⟩ := h
              exact handleFlags_cases hpc ho (by simpa using hlock)
          · exact absurd h (by simp)
      · exact absurd h (by simp)
  | readBody =>
      simp only [recvStep] at h
      split at h
      · next r close hpc =>
          split at h
          · next o ho =>
              simp only [Option.ite_none_left_eq_some] at h
              exact readBody_cases hpc ho (by simpa using h.1) h.2
          · exact absurd h (by simp)
      · exact absurd h (by simp)
  | discard =>
      simp only [recvStep, Option.ite_none_right_eq_some, discardBody] at h
      obtain ⟨hpc, h⟩ := h
      obtain ⟨⟨ret, bytes, src⟩, hread, rfl⟩ := Option.map_eq_some_iff.mp h
      exact .discard hpc hread
  | exit =>
      simp only [recvStep] at h
      split at h
      · next why hpc =>
          rw [← Option.some.inj h]
          exact .exit hpc
      · exact absurd h (by simp)

/-! ### The send fiber -/

/-- The frame that a task without a body builds when it runs, and the object it is about;
`none` for the other tasks. -/
def controlFrame (s : Session) (junk : UInt32) : Task → Option (Ref × Header)
  | .fin r flags => some (r, ⟨.windowUpdate, flags, s.objId r, 0⟩)
  | .goAway reason => some (0, ⟨.goAway, 0, 0, reason⟩)
  | .rst _ => some (0, ⟨.windowUpdate, flagRST, s.readIdParam junk, 0⟩)
  | .pingAck _ => some (0, ⟨.ping, flagACK, 0, s.readHdrLength junk⟩)
  | .ping pingId => some (0, ⟨.ping, flagSYN, 0, pingId⟩)
  | .stop | .openStream _ | .data _ _ _ => none

/-- The steps of the send fiber. -/
inductive SendCase (s : Session) : SendAction → Session → Prop
  | stop {ts : List Task} {junk : UInt32} : s.sendPc = .idle → s.sendChan = .stop :: ts →
      SendCase s (.runTask junk) { s with sendChan := ts, sendPc := .done }
  | openGone {caller : ℕ} {ts : List Task} {junk : UInt32} : s.sendPc = .idle →
      s.sendChan = .openStream caller :: ts → caller ∉ s.openers →
      SendCase s (.runTask junk) { s with sendChan := ts, sendPc := .failed }
  | openRefused {caller : ℕ} {ts : List Task} {junk : UInt32} : s.sendPc = .idle →
      s.sendChan = .openStream caller :: ts → caller ∈ s.openers →
      s.shutDown = true ∨ s.remoteGoaway = true →
      SendCase s (.runTask junk)
        { s with sendChan := ts, sendPc := .failed, openers := s.openers.erase caller }
  | openStream {caller : ℕ} {ts : List Task} {junk : UInt32} : s.sendPc = .idle →
      s.sendChan = .openStream caller :: ts → caller ∈ s.openers → s.shutDown = false →
      s.remoteGoaway = false →
      SendCase s (.runTask junk) { s with
        sendChan := ts
        nextStreamId := s.nextStreamId + 2
        objs := s.objs ++ [{ id := s.nextStreamId + 2, state := .synSent }]
        sendPc := .header (.openStream caller) s.objs.length
          { hdr := ⟨.windowUpdate, flagSYN, s.nextStreamId + 2, 0⟩ } }
  | dataGone {r : Ref} {ticket : ℕ} {p : Payload} {ts : List Task} {junk : UInt32} :
      s.sendPc = .idle → s.sendChan = .data r ticket p :: ts → s.objs[r]? = none →
      SendCase s (.runTask junk) { s with sendChan := ts }
  | dataShut {r : Ref} {ticket : ℕ} {p : Payload} {ts : List Task} {junk : UInt32}
      {o o' : MuxStream} : s.sendPc = .idle → s.sendChan = .data r ticket p :: ts →
      s.objs[r]? = some o → o.sendTask ticket p.count = (none, o') →
      SendCase s (.runTask junk) ({ s with sendChan := ts }.modObj r fun _ => o')
  | data {r : Ref} {ticket : ℕ} {p : Payload} {ts : List Task} {junk : UInt32}
      {o o' : MuxStream} {h : Header} : s.sendPc = .idle →
      s.sendChan = .data r ticket p :: ts → s.objs[r]? = some o →
      o.sendTask ticket p.count = (some h, o') → s.shutDown = false →
      SendCase s (.runTask junk) { { s with sendChan := ts }.modObj r (fun _ => o') with
        sendPc := .header (.data r ticket p) r ⟨h, p.body⟩ }
  | dataDead {r : Ref} {ticket : ℕ} {p : Payload} {ts : List Task} {junk : UInt32}
      {o o' : MuxStream} {h : Header} : s.sendPc = .idle →
      s.sendChan = .data r ticket p :: ts → s.objs[r]? = some o →
      o.sendTask ticket p.count = (some h, o') → s.shutDown = true →
      SendCase s (.runTask junk)
        { { s with sendChan := ts }.modObj r (fun _ => o'.sendTaskDone ticket false) with
          sendPc := .failed }
  | control {t : Task} {ts : List Task} {junk : UInt32} {r : Ref} {h : Header} {g : Bool} :
      s.sendPc = .idle → s.sendChan = t :: ts → s.controlFrame junk t = some (r, h) →
      s.shutDown = false → g = s.localGoaway ∨ (∃ reason, t = .goAway reason) →
      SendCase s (.runTask junk)
        { s with sendChan := ts, localGoaway := g, sendPc := .header t r ⟨h, none⟩ }
  | controlDead {t : Task} {ts : List Task} {junk : UInt32} {r : Ref} {h : Header}
      {g : Bool} : s.sendPc = .idle → s.sendChan = t :: ts →
      s.controlFrame junk t = some (r, h) → s.shutDown = true →
      g = s.localGoaway ∨ (∃ reason, t = .goAway reason) →
      SendCase s (.runTask junk)
        ({ s with sendChan := ts, localGoaway := g }.endTask t r false)
  | headerErr {t : Task} {r : Ref} {f : Frame} : s.sendPc = .header t r f →
      SendCase s (.writeHeader 0) (s.endTask t r false)
  | header {t : Task} {r : Ref} {f : Frame} {n : ℕ} : s.sendPc = .header t r f →
      s.sockClosed = false → 0 < n → n ≤ headerSize → f.body = none →
      SendCase s (.writeHeader n) ({ s with
        out := s.out ++ f.hdr.encode.take n
        started := s.started ++ [(some t, f)] }.endTask t r true)
  | headerMore {t : Task} {r : Ref} {f : Frame} {n : ℕ} {l : List UInt8} :
      s.sendPc = .header t r f → s.sockClosed = false → 0 < n → n ≤ headerSize →
      f.body = some l →
      SendCase s (.writeHeader n) { s with
        out := s.out ++ f.hdr.encode.take n
        started := s.started ++ [(some t, f)]
        sendPc := .body t r f }
  | bodyErr {t : Task} {r : Ref} {f : Frame} : s.sendPc = .body t r f →
      SendCase s (.writeBody 0) (s.endTask t r false)
  | body {t : Task} {r : Ref} {f : Frame} {n : ℕ} : s.sendPc = .body t r f →
      s.sockClosed = false → 0 < n → n ≤ f.payload.length →
      SendCase s (.writeBody n)
        ({ s with out := s.out ++ f.payload.take n }.endTask t r true)
  | emplace {r : Ref} {caller : ℕ} : s.sendPc = .emplace r caller → s.muxLocked = false →
      SendCase s .emplace (s.openEmplace r caller)
  | exit : s.sendPc = .failed → SendCase s .exit { s.beginClose with sendPc := .done }

variable {ts : List Task} {junk : UInt32} {t : Task} {f : Frame}

/-- The task of `open_stream`. -/
theorem openTask_cases {caller : ℕ} (hpc : s.sendPc = .idle)
    (hchan : s.sendChan = .openStream caller :: ts) :
    SendCase s (.runTask junk) ({ s with sendChan := ts }.openTask caller) := by
  rw [openTask]
  split
  · next hc => exact .openGone hpc hchan hc
  · next hc =>
      rw [not_not] at hc
      split
      · next hg => exact .openRefused hpc hchan hc hg
      · next hg =>
          simp only [not_or, Bool.not_eq_true] at hg
          simp only [sendWindowUpdate_open]
          rw [sendMessage_of_open (by exact hg.1)]
          exact .openStream hpc hchan hc hg.1 hg.2

/-- The task of `send`. -/
theorem dataTask_cases {ticket : ℕ} {p : Payload} (hpc : s.sendPc = .idle)
    (hchan : s.sendChan = .data r ticket p :: ts) :
    SendCase s (.runTask junk) ({ s with sendChan := ts }.dataTask r ticket p) := by
  rw [dataTask]
  split
  · next ho => exact .dataGone hpc hchan ho
  · next o ho =>
      split
      · next h => exact .dataShut hpc hchan ho h
      · next o' h =>
          by_cases hd : s.shutDown = true
          · rw [sendMessage_of_shut (by exact hd)]
            simp only [endTask, taskResult, modObj, List.modify_modify_eq]
            exact .dataDead hpc hchan ho h hd
          · rw [Bool.not_eq_true] at hd
            rw [sendMessage_of_open (by exact hd)]
            exact .data hpc hchan ho h hd

/-- The tasks that send a header and nothing else. -/
theorem control_cases {h : Header} {g : Bool} (hpc : s.sendPc = .idle)
    (hchan : s.sendChan = t :: ts) (ht : s.controlFrame junk t = some (r, h))
    (hg : g = s.localGoaway ∨ ∃ reason, t = .goAway reason) :
    SendCase s (.runTask junk)
      ({ s with sendChan := ts, localGoaway := g }.sendMessage t r ⟨h, none⟩) := by
  rw [sendMessage]
  split
  · next hd => exact .controlDead hpc hchan ht hd hg
  · next hd => exact .control hpc hchan ht (by simpa using hd) hg

theorem sendStep_cases {b : SendAction} (h : s.sendStep b = some s') : SendCase s b s' := by
  cases b with
  | runTask junk =>
      simp only [sendStep] at h
      split at h
      · next t ts hpc hchan =>
          rw [← Option.some.inj h]
          cases t with
          | stop => exact .stop hpc hchan
          | openStream caller => exact openTask_cases hpc hchan
          | data r ticket p => exact dataTask_cases hpc hchan
          | goAway reason => exact control_cases hpc hchan rfl (.inr ⟨reason, rfl⟩)
          | fin | rst | pingAck | ping => exact control_cases hpc hchan rfl (.inl rfl)
      · exact absurd h (by simp)
  | writeHeader n =>
      simp only [sendStep] at h
      split at h
      · next t r f hpc =>
          simp only [Option.ite_none_right_eq_some, Option.some.injEq] at h
          obtain ⟨⟨hn, hsock⟩, rfl⟩ := h
          rw [Session.writeHeader]
          split
          · next hn0 => exact hn0 ▸ .headerErr hpc
          · next hn0 =>
              have hopen : s.sockClosed = false := by simpa [hn0] using hsock
              dsimp only
              split
              · next hb => exact .header hpc hopen (by omega) hn hb
              · next hb => exact .headerMore hpc hopen (by omega) hn hb
      · exact absurd h (by simp)
  | writeBody n =>
      simp only [sendStep] at h
      split at h
      · next t r f hpc =>
          simp only [Option.ite_none_right_eq_some, Option.some.injEq] at h
          obtain ⟨⟨hn, hsock⟩, rfl⟩ := h
          rw [Session.writeBody]
          split
          · next hn0 => exact hn0 ▸ .bodyErr hpc
          · next hn0 => exact .body hpc (by simpa [hn0] using hsock) (by omega) hn
      · exact absurd h (by simp)
  | emplace =>
      simp only [sendStep] at h
      split at h
      · next r caller hpc =>
          simp only [Option.ite_none_left_eq_some, Option.some.injEq] at h
          obtain ⟨hmux, rfl⟩ := h
          exact .emplace hpc (by simpa using hmux)
      · exact absurd h (by simp)
  | exit =>
      simp only [sendStep, Option.ite_none_right_eq_some, Option.some.injEq] at h
      obtain ⟨hpc, rfl⟩ := h
      exact .exit hpc

/-! ### The application, keep-alive and the end of the session -/

/-- The steps of the application. The calls that change one stream object and nothing else
are gathered in one case. -/
inductive AppCase (s : Session) : AppAction → Session → Prop
  | openCall : AppCase s .openCall s.openCall
  | openTimeout {caller : ℕ} : caller ∈ s.openers →
      AppCase s (.openTimeout caller) { s with openers := s.openers.erase caller }
  | acceptStream {x : Option Ref} {rest : List (Option Ref)} : s.acceptChn = x :: rest →
      AppCase s .acceptStream { s with acceptChn := rest }
  | sendCall {r : Ref} {p : Payload} {o : MuxStream} : s.objs[r]? = some o →
      o.handed = true → AppCase s (.sendCall r p) (s.sendCall r p o)
  | sendWake {r : Ref} {i : ℕ} {o o' : MuxStream} : s.objs[r]? = some o → o.handed = true →
      o.sendWake i = some o' → AppCase s (.sendWake r i) (s.modObj r fun _ => o')
  | sendTimeout {r : Ref} {i : ℕ} {o o' : MuxStream} : s.objs[r]? = some o →
      o.handed = true → o.sendTimeout i = some o' →
      AppCase s (.sendTimeout r i) (s.modObj r fun _ => o')
  | recvCall {r : Ref} {count : ℕ} {o : MuxStream} : s.objs[r]? = some o →
      o.handed = true → o.recvLock = false →
      AppCase s (.recvCall r count) (s.modObj r fun _ => o.recvCall count)
  | recvWake {r : Ref} {i : ℕ} {o o' : MuxStream} : s.objs[r]? = some o → o.handed = true →
      (o.recvLock = true → o.recvDone.head? ≠ some true) → o.recvWake i = some o' →
      AppCase s (.recvWake r i) (s.modObj r fun _ => o')
  | closeCall {r : Ref} {o : MuxStream} : s.objs[r]? = some o → o.handed = true →
      o.owner = .idle ∨ o.owner = .returned → o.stateLock = false →
      AppCase s (.closeCall r) (s.closeCall r o)
  | closeFin {r : Ref} {o : MuxStream} : s.objs[r]? = some o → o.handed = true →
      o.owner = .finSent → AppCase s (.closeFin r) (s.modObj r fun _ => o.closeFin)
  | closeWait {r : Ref} {o : MuxStream} : s.objs[r]? = some o → o.handed = true →
      o.owner = .waitWg → o.closeWg = 0 →
      AppCase s (.closeWait r) (s.modObj r fun o => { o with owner := .dereg })
  | closeDereg {r : Ref} {o : MuxStream} : s.objs[r]? = some o → o.handed = true →
      o.owner = .dereg → s.muxLocked = false →
      AppCase s (.closeDereg r)
        ((s.closeStream o.id).modObj r fun o => { o with owner := .returned })

theorem appStep_cases {b : AppAction} (h : s.appStep b = some s') : AppCase s b s' := by
  cases b with
  | openCall =>
      rw [← Option.some.inj h]
      exact .openCall
  | openTimeout caller =>
      simp only [appStep, Option.ite_none_right_eq_some, Option.some.injEq] at h
      obtain ⟨hc, rfl⟩ := h
      exact .openTimeout hc
  | acceptStream =>
      simp only [appStep] at h
      split at h
      · next hacc =>
          rw [← Option.some.inj h]
          exact .acceptStream hacc
      · exact absurd h (by simp)
  | sendCall r p =>
      obtain ⟨o, ho, hh, hk⟩ := onHanded_eq_some.mp h
      rw [← Option.some.inj hk]
      exact .sendCall ho hh
  | sendWake r i =>
      obtain ⟨o, ho, hh, hk⟩ := onHanded_eq_some.mp h
      obtain ⟨o', ho', rfl⟩ := Option.map_eq_some_iff.mp hk
      exact .sendWake ho hh ho'
  | sendTimeout r i =>
      obtain ⟨o, ho, hh, hk⟩ := onHanded_eq_some.mp h
      obtain ⟨o', ho', rfl⟩ := Option.map_eq_some_iff.mp hk
      exact .sendTimeout ho hh ho'
  | recvCall r count =>
      obtain ⟨o, ho, hh, hk⟩ := onHanded_eq_some.mp h
      simp only [Option.ite_none_left_eq_some, Option.some.injEq] at hk
      obtain ⟨hlock, rfl⟩ := hk
      exact .recvCall ho hh (by simpa using hlock)
  | recvWake r i =>
      obtain ⟨o, ho, hh, hk⟩ := onHanded_eq_some.mp h
      simp only [Option.ite_none_left_eq_some, not_and] at hk
      obtain ⟨o', ho', rfl⟩ := Option.map_eq_some_iff.mp hk.2
      exact .recvWake ho hh hk.1 ho'
  | closeCall r =>
      obtain ⟨o, ho, hh, hk⟩ := onHanded_eq_some.mp h
      simp only [Option.ite_none_right_eq_some, Option.some.injEq] at hk
      obtain ⟨⟨howner, hlock⟩, rfl⟩ := hk
      exact .closeCall ho hh howner hlock
  | closeFin r =>
      obtain ⟨o, ho, hh, hk⟩ := onHanded_eq_some.mp h
      simp only [Option.ite_none_right_eq_some, Option.some.injEq] at hk
      obtain ⟨howner, rfl⟩ := hk
      exact .closeFin ho hh howner
  | closeWait r =>
      obtain ⟨o, ho, hh, hk⟩ := onHanded_eq_some.mp h
      simp only [Option.ite_none_right_eq_some, Option.some.injEq] at hk
      obtain ⟨⟨howner, hwg⟩, rfl⟩ := hk
      exact .closeWait ho hh howner hwg
  | closeDereg r =>
      obtain ⟨o, ho, hh, hk⟩ := onHanded_eq_some.mp h
      simp only [Option.ite_none_right_eq_some, Option.some.injEq] at hk
      obtain ⟨⟨howner, hmux⟩, rfl⟩ := hk
      exact .closeDereg ho hh howner hmux

/-- The steps of the keep-alive fiber. -/
inductive KeepCase (s : Session) : KeepAction → Session → Prop
  | ping : s.keepPc = .idle → KeepCase s .ping s.ping
  | pong {id : UInt32} : s.keepPc = .waiting id →
      KeepCase s .pong { s with pings := Function.update s.pings id none, keepPc := .idle }
  | timeout {id : UInt32} : s.keepPc = .waiting id →
      KeepCase s .timeout { s with keepPc := .failed }
  | exit : s.keepPc = .failed → KeepCase s .exit { s.beginClose with keepPc := .done }
  | stop : s.keepPc = .idle → KeepCase s .stop { s with keepPc := .done }

theorem keepStep_cases {b : KeepAction} (h : s.keepStep b = some s') : KeepCase s b s' := by
  cases b with
  | ping =>
      simp only [keepStep, Option.ite_none_right_eq_some, Option.some.injEq] at h
      obtain ⟨⟨hpc, -⟩, rfl⟩ := h
      exact .ping hpc
  | pong =>
      simp only [keepStep] at h
      split at h
      · next id hpc =>
          split at h
          · rw [← Option.some.inj h]
            exact .pong hpc
          · exact absurd h (by simp)
      · exact absurd h (by simp)
  | timeout =>
      simp only [keepStep] at h
      split at h
      · next id hpc =>
          rw [← Option.some.inj h]
          exact .timeout hpc
      · exact absurd h (by simp)
  | exit =>
      simp only [keepStep, Option.ite_none_right_eq_some, Option.some.injEq] at h
      obtain ⟨hpc, rfl⟩ := h
      exact .exit hpc
  | stop =>
      simp only [keepStep, Option.ite_none_right_eq_some, Option.some.injEq] at h
      obtain ⟨⟨hpc, -⟩, rfl⟩ := h
      exact .stop hpc

/-- The steps of the session's `close()`. -/
inductive CloseCase (s : Session) : CloseAction → Session → Prop
  | call : CloseCase s .call s.beginClose
  | lock : s.closePc = .begun → s.muxLocked = false →
      CloseCase s .lock { s with closePc := .closing s.registered }
  | setClose {r : Ref} {rest : List Ref} {o : MuxStream} : s.closePc = .closing rest →
      s.objs[r]? = some o → r ∈ rest → o.stateLock = false →
      CloseCase s (.setClose r)
        { s.modObj r (fun _ => o.setClose) with closePc := .closing (rest.erase r) }
  | socket : s.closePc = .closing [] →
      CloseCase s .socket { s.addSendTask .stop with
        source := { bytes := [], ending := some .error }, closePc := .waiting }
  | finish : s.closePc = .waiting →
      CloseCase s .finish { s with acceptChn := s.acceptChn ++ [none], closePc := .finished }

theorem closeStep_cases {b : CloseAction} (h : s.closeStep b = some s') :
    CloseCase s b s' := by
  cases b with
  | call =>
      rw [← Option.some.inj h]
      exact .call
  | lock =>
      simp only [closeStep, Option.ite_none_right_eq_some, Option.some.injEq] at h
      obtain ⟨⟨hpc, hmux⟩, rfl⟩ := h
      exact .lock hpc hmux
  | setClose r =>
      simp only [closeStep] at h
      split at h
      · next rest o hpc ho =>
          simp only [Option.ite_none_right_eq_some, Option.some.injEq] at h
          obtain ⟨⟨hr, hlock⟩, rfl⟩ := h
          exact .setClose hpc ho hr hlock
      · exact absurd h (by simp)
  | socket =>
      simp only [closeStep, Option.ite_none_right_eq_some, Option.some.injEq] at h
      obtain ⟨hpc, rfl⟩ := h
      exact .socket hpc
  | finish =>
      simp only [closeStep] at h
      split at h
      · next hpc _ _ _ =>
          rw [← Option.some.inj h]
          exact .finish hpc
      · exact absurd h (by simp)

/-- The steps of the session. -/
inductive StepCase (s : Session) : Action → Session → Prop
  | recv {b : RecvAction} {s' : Session} : RecvCase s b s' → StepCase s (.recv b) s'
  | send {b : SendAction} {s' : Session} : SendCase s b s' → StepCase s (.send b) s'
  | app {b : AppAction} {s' : Session} : AppCase s b s' → StepCase s (.app b) s'
  | keep {b : KeepAction} {s' : Session} : KeepCase s b s' → StepCase s (.keep b) s'
  | close {b : CloseAction} {s' : Session} : CloseCase s b s' → StepCase s (.close b) s'

/-- **A step of the session is a step of one of its parts.** -/
theorem step_cases (h : s.step a = some s') : StepCase s a s' := by
  simp only [step, Option.ite_none_left_eq_some] at h
  cases a with
  | recv b => exact .recv (recvStep_cases h.2)
  | send b => exact .send (sendStep_cases h.2)
  | app b => exact .app (appStep_cases h.2)
  | keep b => exact .keep (keepStep_cases h.2)
  | close b => exact .close (closeStep_cases h.2)

/-! ### Steps from a known place -/

/-- A send fiber that waits for a task starts the first one. -/
theorem startTask_of_idle {b : SendAction}
    (hpc : s.sendPc = .idle) (hchan : s.sendChan = t :: ts)
    (h : s.step (.send b) = some s') :
    ∃ junk, s' = { s with sendChan := ts }.startTask junk t := by
  simp only [step, Option.ite_none_left_eq_some] at h
  cases b with
  | runTask junk =>
      refine ⟨junk, Option.some.inj (h.2.symm.trans ?_)⟩
      simp only [sendStep]
      rw [hpc, hchan]
  | writeHeader | writeBody | emplace | exit => simp [sendStep, hpc] at h

/-- A send fiber at a header writes it. -/
theorem writeHeader_of_header {b : SendAction}
    (hpc : s.sendPc = .header t r f) (h : s.step (.send b) = some s') :
    ∃ n, b = .writeHeader n ∧ s' = s.writeHeader t r f n := by
  simp only [step, Option.ite_none_left_eq_some] at h
  cases b with
  | writeHeader n =>
      simp only [sendStep, hpc, Option.ite_none_right_eq_some, Option.some.injEq] at h
      exact ⟨n, rfl, h.2.2.symm⟩
  | runTask | writeBody | emplace | exit => simp [sendStep, hpc] at h

/-- A send fiber at a body writes as much of it as there is. -/
theorem writeBody_of_body {b : SendAction}
    (hpc : s.sendPc = .body t r f) (h : s.step (.send b) = some s') :
    ∃ n ≤ f.payload.length, s' = s.writeBody t r f n := by
  simp only [step, Option.ite_none_left_eq_some] at h
  cases b with
  | writeBody n =>
      simp only [sendStep, hpc, Option.ite_none_right_eq_some, Option.some.injEq] at h
      exact ⟨n, h.2.1.1, h.2.2.symm⟩
  | runTask | writeHeader | emplace | exit => simp [sendStep, hpc] at h

/-- A receive fiber at the top of its loop reads a header. -/
theorem recvHeader_of_top {b : RecvAction} (hpc : s.recvPc = .top)
    (h : s.step (.recv b) = some s') : b = .recvHeader ∧ s.recvHeader = some s' := by
  simp only [step, Option.ite_none_left_eq_some] at h
  cases b with
  | recvHeader => exact ⟨rfl, by simpa [recvStep, hpc] using h.2⟩
  | dispatch | rstReturn | ackWrite | emplace | lookup | processFlags | readBody | discard
  | exit => simp [recvStep, hpc] at h

/-- A receive fiber past a header goes to its handler. -/
theorem dispatch_of_decoded {b : RecvAction} (hpc : s.recvPc = .decoded)
    (h : s.step (.recv b) = some s') : s' = s.dispatch := by
  simp only [step, Option.ite_none_left_eq_some] at h
  cases b with
  | dispatch =>
      simp only [recvStep, hpc, if_true, Option.some.injEq] at h
      exact h.2.symm
  | recvHeader | rstReturn | ackWrite | emplace | lookup | processFlags | readBody | discard
  | exit => simp [recvStep, hpc] at h

/-- A receive fiber before the registry looks the stream up. -/
theorem lookup_of_lookup {b : RecvAction} (hpc : s.recvPc = .lookup)
    (h : s.step (.recv b) = some s') : b = .lookup ∧ s' = s.lookup := by
  simp only [step, Option.ite_none_left_eq_some] at h
  cases b with
  | lookup =>
      simp only [recvStep, Option.ite_none_right_eq_some, Option.some.injEq] at h
      exact ⟨rfl, h.2.2.symm⟩
  | recvHeader | dispatch | rstReturn | ackWrite | emplace | processFlags | readBody
  | discard | exit => simp [recvStep, hpc] at h

/-- A receive fiber at the lock of a stream processes the flags when the lock is free. -/
theorem handleFlags_of_flags {b : RecvAction} (hpc : s.recvPc = .flags r)
    (ho : s.objs[r]? = some o) (h : s.step (.recv b) = some s') :
    s' = s.handleFlags r o := by
  simp only [step, Option.ite_none_left_eq_some] at h
  cases b with
  | processFlags =>
      simp only [recvStep, hpc, ho, Option.ite_none_left_eq_some, Option.some.injEq] at h
      exact h.2.2.symm
  | recvHeader | dispatch | rstReturn | ackWrite | emplace | lookup | readBody | discard
  | exit => simp [recvStep, hpc] at h

end ArchNet.Session

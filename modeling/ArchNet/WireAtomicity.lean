import ArchNet.MuxFrames

/-!
# Frames on the Wire Are Not Interleaved

A Data frame takes two socket sends, its header and its body, and the fiber can be switched
away between them. Nearly everything that is sent goes through the queue and is written by
the send fiber alone, one task after the other. The exception is the ACK of
`incoming_stream`, which the receive fiber writes itself: when it comes between the two
sends of a Data frame, it lands in the middle of that frame.

* `WireAtomic` — the bytes written are the frames that were started, in their order, all of
  them complete but perhaps the last, and every frame's header announces its body.
* `fullWrite` — the assumption about the socket: a send takes all it is given (or fails,
  once the socket has been closed).
* `ackApart`, `framedSends` — the two conditions under which the code keeps its frames
  whole.

## Main results

* `wireAtomic_of_reach`: **frames stay whole** in every run in which no ACK is written
  between the two sends of a Data frame and every `send` has a body that fits the length
  field.
* `ack_inside_frame`: a run, with full writes only, in which the ACK for a second stream
  lands between the header and the body of a Data frame.
-/

namespace ArchNet.Session

open Lts

/-- The frames whose first byte has been written, in order. -/
def frames (s : Session) : List Frame := s.started.map Prod.snd

/-- **The wire is a sequence of whole frames**: the bytes written reach at least to the end
of all frames but the last one started, never beyond the end of that one, and every frame is
as long as its header says. -/
def WireAtomic (s : Session) : Prop :=
  (∀ f ∈ s.frames, f.WellFormed) ∧
    framesBytes s.frames.dropLast <+: s.out ∧ s.out <+: framesBytes s.frames

instance (s : Session) : Decidable s.WireAtomic := by
  unfold WireAtomic; infer_instance

/-- Every socket send takes all the bytes it is given; on a closed socket it fails. -/
def fullWrite (s : Session) : Action → Bool
  | .send (.writeHeader n) => n == headerSize || s.sockClosed
  | .send (.writeBody n) =>
      match s.sendPc with
      | .body _ _ f => n == f.payload.length || s.sockClosed
      | _ => true
  | .recv (.ackWrite n) => n == headerSize || s.sockClosed
  | _ => true

/-- The ACK of `incoming_stream` is not written between the two sends of a frame. -/
def ackApart (s : Session) : Action → Bool
  | .recv (.ackWrite _) =>
      match s.sendPc with
      | .body _ _ _ => false
      | _ => true
  | _ => true

/-- A payload whose size fits the 32-bit length field and whose bytes are there. -/
def framedPayload (p : Payload) : Bool :=
  decide (p.count < 2 ^ 32) && (p.body.getD []).length == p.count

/-- Every `send` call is given such a payload. -/
def framedSends (_ : Session) : Action → Bool
  | .app (.sendCall _ p) => framedPayload p
  | _ => true

/-! ### The invariant -/

/-- Where the writers are in the byte stream: between two frames, or behind the header of
the last one. -/
def Aligned (s : Session) : Prop :=
  match s.sendPc with
  | .body _ _ f => ∃ pre, s.frames = pre ++ [f] ∧ s.out = framesBytes pre ++ f.hdr.encode
  | _ => s.out = framesBytes s.frames

/-- What every step keeps. -/
structure WireInv (s : Session) : Prop where
  close : CloseOk s
  queue : ∀ r ticket p, .data r ticket p ∈ s.sendChan → framedPayload p = true
  header : ∀ t r f, s.sendPc = .header t r f → f.WellFormed
  ack : ∀ r f, s.recvPc = .ack r f → f.WellFormed ∧ f.body = none
  atomic : WireAtomic s
  aligned : s.sockClosed = false → Aligned s

/-- A writer in its place has written whole frames. -/
theorem WireAtomic.of_aligned {s : Session} (hwf : ∀ f ∈ s.frames, f.WellFormed)
    (h : Aligned s) : WireAtomic s := by
  refine ⟨hwf, ?_⟩
  rw [Aligned] at h
  split at h
  · obtain ⟨pre, hfs, hout⟩ := h
    rw [hfs, hout, List.dropLast_concat]
    refine ⟨List.prefix_append _ _, ?_⟩
    rw [framesBytes_append, framesBytes_cons, Frame.bytes, List.append_assoc,
      List.prefix_append_right_inj]
    exact List.prefix_append _ _
  · rw [h]
    refine ⟨?_, List.prefix_refl _⟩
    obtain hnil | ⟨fs, f, hfs⟩ := s.frames.eq_nil_or_concat'
    · simp [hnil]
    · rw [hfs, List.dropLast_concat, framesBytes_append]
      exact List.prefix_append _ _

variable {s s' : Session} {a : Action}

/-- A header without a body that is not a Data header is a whole frame. -/
theorem wellFormed_control {h : Header} (ht : h.msgType ≠ .data) :
    Frame.WellFormed ⟨h, none⟩ := by
  simp [Frame.WellFormed, Frame.payload, ht]

/-- The frame of a `send` task is whole when its payload is. -/
theorem wellFormed_sendTask {o o' : MuxStream} {ticket : ℕ} {p : Payload} {h : Header}
    (hp : framedPayload p = true) (htask : o.sendTask ticket p.count = (some h, o')) :
    Frame.WellFormed ⟨h, p.body⟩ := by
  simp only [framedPayload, Bool.and_eq_true, decide_eq_true_eq, beq_iff_eq] at hp
  rw [MuxStream.sendTask] at htask
  split at htask
  · exact absurd htask (by simp)
  · simp only [Prod.mk.injEq, Option.some.injEq] at htask
    rw [← htask.1]
    simp only [Frame.WellFormed, Frame.payload, if_true, UInt32.toNat_ofNat', hp.2]
    exact (Nat.mod_eq_of_lt hp.1).symm

/-- The header of a control task is not a Data header. -/
theorem controlFrame_not_data {junk : UInt32} {t : Task} {r : Ref} {h : Header}
    (ht : s.controlFrame junk t = some (r, h)) : h.msgType ≠ .data := by
  cases t <;> simp only [controlFrame, Option.some.injEq, Prod.mk.injEq, reduceCtorEq] at ht
  all_goals rw [← ht.2]; simp

/-- The queue keeps holding framed payloads only. -/
theorem WireInv.queue_step (hinv : WireInv s) (hC : framedSends s a = true)
    (h : s.step a = some s') (r : Ref) (ticket : ℕ) (p : Payload)
    (hmem : .data r ticket p ∈ s'.sendChan) : framedPayload p = true := by
  obtain hold | hq := mem_sendChan_of_step h hmem
  · exact hinv.queue r ticket p hold
  · cases hq with
    | data => exact hC

/-- The frame of an ACK that is about to be written has no body. -/
theorem WireInv.ack_step (hinv : WireInv s) (h : s.step a = some s') (r : Ref) (f : Frame)
    (hpc : s'.recvPc = .ack r f) : f.WellFormed ∧ f.body = none := by
  cases step_cases h with
  | recv h =>
      cases h with
      | accept =>
          obtain ⟨-, rfl⟩ := RecvPc.ack.inj hpc
          exact ⟨wellFormed_control (by simp), rfl⟩
      | bodyAbort hbody => exact absurd (hbody.symm.trans hpc) (by simp)
      | _ => exact absurd hpc (by simp [handledFrame, protoErr, acceptEmplace])
  | send | app | keep | close =>
      have hf := step_recvFrame h (by simp)
      exact hinv.ack r f (hf.recvPc ▸ hpc)

/-- **Steps keep the invariant**, given what they do to the wire: the frames stay well
formed, a header about to be sent is, and a writer that was in its place is again. -/
theorem WireInv.of_wire (hinv : WireInv s) (hC : framedSends s a = true)
    (h : s.step a = some s') (hwf : ∀ f ∈ s'.frames, f.WellFormed)
    (hhdr : ∀ t r f, s'.sendPc = .header t r f → f.WellFormed)
    (hal : s.sockClosed = false → Aligned s → Aligned s')
    (hclosed : s.sockClosed = true → s'.out = s.out ∧ s'.frames = s.frames) :
    WireInv s' := by
  have hopen : s'.sockClosed = false → s.sockClosed = false := by
    intro hopen
    cases hc : s.sockClosed with
    | false => rfl
    | true => exact absurd (sockClosed_of_step hinv.close h hc) (by simp [hopen])
  refine ⟨closeOk_of_step hinv.close h, hinv.queue_step hC h, hhdr, hinv.ack_step h, ?_,
    fun ho => hal (hopen ho) (hinv.aligned (hopen ho))⟩
  cases hc : s.sockClosed with
  | false => exact .of_aligned hwf (hal hc (hinv.aligned hc))
  | true =>
      obtain ⟨hout, hfs⟩ := hclosed hc
      rw [WireAtomic, hfs, hout]
      exact hinv.atomic

/-- A step that writes nothing and leaves the send fiber where it was. -/
theorem WireInv.of_frame (hinv : WireInv s) (hC : framedSends s a = true)
    (h : s.step a = some s') (hf : SendFrame s s') : WireInv s' := by
  have hfs : s'.frames = s.frames := by rw [frames, frames, hf.started]
  refine hinv.of_wire hC h (hfs ▸ hinv.atomic.1) ?_ ?_ fun _ => ⟨hf.out, hfs⟩
  · intro t r f hpc
    exact hinv.header t r f (hf.sendPc ▸ hpc)
  · intro _ hal
    rw [Aligned, hf.sendPc, hf.out, hfs]
    exact hal

/-- Outside the body of a frame, a writer in its place has written all that was started. -/
theorem aligned_iff_of_not_body (hpc : ∀ t r f, s.sendPc ≠ .body t r f) :
    Aligned s ↔ s.out = framesBytes s.frames := by
  rw [Aligned]
  split
  · next t r f h => exact absurd h (hpc t r f)
  · exact Iff.rfl

/-- A step of the send fiber between frames that writes nothing. -/
theorem WireInv.of_quiet (hinv : WireInv s) (hC : framedSends s a = true)
    (h : s.step a = some s') (hout : s'.out = s.out) (hst : s'.started = s.started)
    (hpc : ∀ t r f, s.sendPc ≠ .body t r f) (hpc' : ∀ t r f, s'.sendPc ≠ .body t r f)
    (hhdr : ∀ t r f, s'.sendPc = .header t r f → f.WellFormed) : WireInv s' := by
  have hfs : s'.frames = s.frames := by rw [frames, frames, hst]
  refine hinv.of_wire hC h (hfs ▸ hinv.atomic.1) hhdr ?_ fun _ => ⟨hout, hfs⟩
  intro _ hal
  rw [aligned_iff_of_not_body hpc] at hal
  rw [aligned_iff_of_not_body hpc', hout, hfs, hal]

/-- A step that writes one frame without a body, or only its header. -/
theorem WireInv.of_write (hinv : WireInv s) (hC : framedSends s a = true)
    (h : s.step a = some s') {f : Frame} {x : Option Task}
    (hopen : s.sockClosed = false) (hwf : f.WellFormed)
    (hout : s'.out = s.out ++ f.hdr.encode) (hst : s'.started = s.started ++ [(x, f)])
    (hpc : ∀ t r f, s.sendPc ≠ .body t r f)
    (hpc' : (∃ t r, s'.sendPc = .body t r f) ∨
      f.body = none ∧ ∀ t r f, s'.sendPc ≠ .body t r f)
    (hhdr : ∀ t r f, s'.sendPc = .header t r f → f.WellFormed) : WireInv s' := by
  have hfs : s'.frames = s.frames ++ [f] := by
    rw [frames, frames, hst, List.map_append, List.map_singleton]
  have hwf' : ∀ g ∈ s'.frames, g.WellFormed := by
    intro g hg
    rw [hfs, List.mem_append, List.mem_singleton] at hg
    obtain hg | rfl := hg
    · exact hinv.atomic.1 g hg
    · exact hwf
  refine hinv.of_wire hC h hwf' hhdr ?_ (by simp [hopen])
  intro _ hal
  rw [aligned_iff_of_not_body hpc] at hal
  obtain ⟨t, r, hb⟩ | ⟨hb, hnot⟩ := hpc'
  · rw [Aligned, hb]
    exact ⟨s.frames, hfs, by rw [hout, hal]⟩
  · rw [aligned_iff_of_not_body hnot, hout, hfs, hal, framesBytes_append, framesBytes_cons,
      Frame.bytes, Frame.payload, hb]
    simp

/-- The end of a frame's body. -/
theorem WireInv.of_body (hinv : WireInv s) (hC : framedSends s a = true)
    (h : s.step a = some s') {t : Task} {r : Ref} {f : Frame} (hpc : s.sendPc = .body t r f)
    (hout : s.sockClosed = false → s'.out = s.out ++ f.payload)
    (hclosed : s.sockClosed = true → s'.out = s.out) (hst : s'.started = s.started)
    (hpc' : ∀ t r f, s'.sendPc ≠ .body t r f)
    (hhdr : ∀ t r f, s'.sendPc ≠ .header t r f) : WireInv s' := by
  have hfs : s'.frames = s.frames := by rw [frames, frames, hst]
  refine hinv.of_wire hC h (hfs ▸ hinv.atomic.1) (fun t r f he => absurd he (hhdr t r f)) ?_
    fun hc => ⟨hclosed hc, hfs⟩
  intro hopen hal
  rw [Aligned, hpc] at hal
  obtain ⟨pre, hpre, hbytes⟩ := hal
  rw [aligned_iff_of_not_body hpc', hout hopen, hfs, hpre, hbytes]
  simp [Frame.bytes]

/-- The send fiber keeps the invariant. -/
theorem WireInv.send_step {b : SendAction} (hinv : WireInv s)
    (hfull : fullWrite s (.send b) = true) (h : s.step (.send b) = some s') :
    WireInv s' := by
  have hC : framedSends s (.send b) = true := rfl
  cases step_cases h with
  | send hc =>
    cases hc with
    | stop hpc | openGone hpc | openRefused hpc | dataGone hpc | dataShut hpc
    | dataDead hpc =>
        exact hinv.of_quiet hC h rfl rfl (by simp [hpc]) (by simp [hpc, modObj])
          (by simp [hpc, modObj])
    | openStream hpc =>
        refine hinv.of_quiet hC h rfl rfl (by simp [hpc]) (by simp) ?_
        intro t r f he
        obtain ⟨-, -, rfl⟩ := SendPc.header.inj he
        exact wellFormed_control (by simp)
    | @data r ticket p ts junk o o' hdr hpc hchan ho htask =>
        refine hinv.of_quiet hC h rfl rfl (by simp [hpc]) (by simp) ?_
        intro t r f he
        obtain ⟨-, -, rfl⟩ := SendPc.header.inj he
        exact wellFormed_sendTask (hinv.queue _ _ _ (hchan ▸ List.mem_cons_self)) htask
    | control hpc hchan hframe =>
        refine hinv.of_quiet hC h rfl rfl (by simp [hpc]) (by simp) ?_
        intro t r f he
        obtain ⟨-, -, rfl⟩ := SendPc.header.inj he
        exact wellFormed_control (controlFrame_not_data hframe)
    | controlDead hpc =>
        obtain ⟨_, _, _, _, he, hnh, hnb, -⟩ := endTask_frame _ _ _ _
        rw [he] at h ⊢
        exact hinv.of_quiet hC h rfl rfl (by simp [hpc]) hnb
          fun t r f he => absurd he (hnh t r f)
    | headerErr hpc =>
        obtain ⟨_, _, _, _, he, hnh, hnb, -⟩ := endTask_frame _ _ _ _
        rw [he] at h ⊢
        exact hinv.of_quiet hC h rfl rfl (by simp [hpc]) hnb
          fun t r f he => absurd he (hnh t r f)
    | @header t r f n hpc hopen hpos hn hbody =>
        obtain ⟨_, _, _, _, he, hnh, hnb, -⟩ := endTask_frame _ _ _ _
        rw [he] at h ⊢
        have hn : n = headerSize := by simpa [fullWrite, hopen] using hfull
        refine hinv.of_write hC h hopen (hinv.header _ _ _ hpc) ?_ rfl (by simp [hpc])
          (.inr ⟨hbody, hnb⟩) fun t r f he => absurd he (hnh t r f)
        rw [hn, ← length_encode f.hdr, List.take_length]
    | @headerMore t r f n l hpc hopen hpos hn hbody =>
        have hn : n = headerSize := by simpa [fullWrite, hopen] using hfull
        refine hinv.of_write hC h hopen (hinv.header _ _ _ hpc) ?_ rfl (by simp [hpc])
          (.inl ⟨t, r, rfl⟩) (by simp)
        rw [hn, ← length_encode f.hdr, List.take_length]
    | @bodyErr t r f hpc =>
        obtain ⟨_, _, _, _, he, hnh, hnb, -⟩ := endTask_frame _ _ _ _
        rw [he] at h ⊢
        refine hinv.of_body hC h hpc ?_ (fun _ => rfl) rfl hnb hnh
        intro hopen
        have hlen : 0 = f.payload.length := by simpa [fullWrite, hpc, hopen] using hfull
        rw [List.length_eq_zero_iff.mp hlen.symm, List.append_nil]
    | @body t r f n hpc hopen hpos hn =>
        obtain ⟨_, _, _, _, he, hnh, hnb, -⟩ := endTask_frame _ _ _ _
        rw [he] at h ⊢
        have hn : n = f.payload.length := by simpa [fullWrite, hpc, hopen] using hfull
        refine hinv.of_body hC h hpc (fun _ => ?_) (by simp [hopen]) rfl hnb hnh
        rw [hn, List.take_length]
    | emplace hpc =>
        refine hinv.of_quiet hC h ?_ ?_ (by simp [hpc]) (by simp [openEmplace])
          (by simp [openEmplace])
        all_goals unfold openEmplace emplaceStream; split <;> rfl
    | exit hpc =>
        have hf := beginClose_sendFrame (s := s)
        exact hinv.of_quiet hC h hf.out hf.started (by simp [hpc]) (by simp) (by simp)

/-- **Every step that meets the conditions keeps the invariant.** -/
theorem WireInv.step (hinv : WireInv s)
    (hC : (fullWrite s a && ackApart s a && framedSends s a) = true)
    (h : s.step a = some s') : WireInv s' := by
  simp only [Bool.and_eq_true] at hC
  obtain ⟨⟨hfull, hapart⟩, hframed⟩ := hC
  cases a with
  | send b => exact hinv.send_step hfull h
  | app | keep | close => exact hinv.of_frame hframed h (step_sendFrame h (by simp) (by simp))
  | recv b =>
      cases b with
      | ackWrite n =>
          cases step_cases h with
          | recv hc =>
            cases hc with
            | ackErr => exact hinv.of_frame hframed h ⟨rfl, rfl, rfl⟩
            | @ackWrite r f n hpc hopen hpos hn =>
                have hn : n = headerSize := by simpa [fullWrite, hopen] using hfull
                have hnot : ∀ t r f, s.sendPc ≠ .body t r f := by
                  intro t r f he
                  simp [ackApart, he] at hapart
                obtain ⟨hwf, hbody⟩ := hinv.ack r f hpc
                refine hinv.of_write hframed h hopen hwf ?_ rfl hnot
                  (.inr ⟨hbody, hnot⟩) hinv.header
                rw [hn, ← length_encode f.hdr, List.take_length]
      | _ => exact hinv.of_frame hframed h (step_sendFrame h (by simp) (by simp))

/-- A new session has written nothing. -/
theorem WireInv.init (type : MuxStreamType) (src : Source) : WireInv (init type src) where
  close := by simp [CloseOk, Session.init]
  queue := by simp [Session.init]
  header := by simp [Session.init]
  ack := by simp [Session.init]
  atomic := by simp [WireAtomic, frames, Session.init]
  aligned := by simp [Aligned, frames, Session.init]

/-- **Frames stay whole.** In every run of a session whose socket sends take all they are
given, in which no ACK of `incoming_stream` is written between the two sends of a Data
frame, and in which every `send` has a body that fits the length field, the bytes on the
wire are at all times the started frames, one after the other. -/
theorem wireAtomic_of_reach {type : MuxStreamType} {src : Source}
    (h : Reach Session.step (fun s a => fullWrite s a && ackApart s a && framedSends s a)
      (Session.init type src) s) : WireAtomic s :=
  (h.invariant WireInv (.init type src) fun hinv hC hs => hinv.step hC hs).atomic

/-- A peer that opens two streams, one after the other. -/
def twoSyns : Source :=
  { bytes := framesBytes [⟨⟨.windowUpdate, flagSYN, 3, 0⟩, none⟩,
      ⟨⟨.windowUpdate, flagSYN, 5, 0⟩, none⟩] }

/-- The receive fiber's part of accepting a stream, up to the end of the frame. -/
def acceptRun : List Action :=
  [.recv .recvHeader, .recv .dispatch, .recv (.ackWrite 12), .recv .emplace, .recv .lookup,
    .recv .processFlags]

/-- The theorem at a run that accepts two streams and sends on the first in between. -/
theorem wireAtomic_two_accepts :
    ∃ s, Reach Session.step (fun s a => fullWrite s a && ackApart s a && framedSends s a)
        (Session.init .server twoSyns) s ∧ s.frames.length = 3 ∧ WireAtomic s := by
  obtain ⟨s, hs, hlen⟩ :
      ∃ s, Reach Session.step (fun s a => fullWrite s a && ackApart s a && framedSends s a)
        (Session.init .server twoSyns) s ∧ s.frames.length = 3 :=
    Reach.exists_of_exec (acceptRun ++ [.app (.sendCall 0 (.bytes [7])),
      .send (.runTask 0), .send (.writeHeader 12), .send (.writeBody 1)] ++ acceptRun)
      (by decide +kernel)
  exact ⟨s, hs, hlen, wireAtomic_of_reach hs⟩

/-- **An ACK inside a frame**: with full writes only, the run that accepts a stream, starts
to send one byte on it, and accepts a second stream between the two socket sends writes the
header of the Data frame, the whole ACK, and has the byte still to come. -/
theorem ack_inside_frame :
    ∃ s, Reach Session.step fullWrite (Session.init .server twoSyns) s ∧
      s.frames = [⟨⟨.windowUpdate, flagACK, 3, 0⟩, none⟩, ⟨⟨.data, 0, 3, 1⟩, some [7]⟩,
        ⟨⟨.windowUpdate, flagACK, 5, 0⟩, none⟩] ∧
      s.out = Frame.bytes ⟨⟨.windowUpdate, flagACK, 3, 0⟩, none⟩ ++
        Header.encode ⟨.data, 0, 3, 1⟩ ++
        Frame.bytes ⟨⟨.windowUpdate, flagACK, 5, 0⟩, none⟩ ∧
      ¬ WireAtomic s :=
  Reach.exists_of_exec (acceptRun ++ [.app (.sendCall 0 (.bytes [7])), .send (.runTask 0),
    .send (.writeHeader 12), .recv .recvHeader, .recv .dispatch, .recv (.ackWrite 12)])
    (by decide +kernel)

end ArchNet.Session

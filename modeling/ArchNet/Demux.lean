import ArchNet.RecvWindow
import ArchNet.Registry

/-!
# Demultiplexing

The receive fiber cuts the byte stream of the socket into frames and gives the bodies of
Data frames to the streams. Each of its branches — unknown stream, SYN with a body, refused
SYN, FIN with a body, window update, ping, go-away — has to read exactly what the header
announces, or everything after it is misread.

* `Demuxed fs s` — what the receive fiber has made of the frames `fs` in state `s`: which
  headers it has handled, where it stands in the byte stream, and what each stream has
  received (`delivered`).

## Main results

* `demux_of_reach`: **the receive loop stays in step with the sender** — for every sequence
  of well-formed frames, every segmentation and every interleaving with the other fibers, as
  long as no handler has failed, the headers handled are the first ones sent, the bytes left
  on the socket are those of the frames not handled, and the bytes appended to a stream are
  the bodies of the Data frames for which the registry named it.
* `accounted_of_reach`: the bytes appended to a stream are those that the application has got from
  it, and then those in `recv_buff_`.
-/

namespace ArchNet.Session

open Lts MuxStream

variable {s s' : Session} {a : Action} {r : Ref} {o o' : MuxStream} {fs : List Frame}

/-! ### Places of the receive fiber -/

/-- The receive fiber has decoded a header whose frame is not handled yet. -/
def midFrame : RecvPc → Bool
  | .decoded | .rstReturn | .ack _ _ | .emplace _ | .lookup | .flags _ | .body _ _
  | .discard => true
  | .top | .failed _ | .done _ => false

/-- The receive fiber is between two frames, or has found no further one. -/
def betweenFrames : RecvPc → Bool
  | .top | .failed .decode | .done .decode => true
  | _ => false

/-! ### What has been received -/

/-- The bodies of the handled Data frames for which the registry named stream object `r`. -/
def delivered (r : Ref) (fs : List Frame) (handled : List (Header × Option Ref)) :
    List UInt8 :=
  ((fs.zip handled).map fun x =>
    if x.1.hdr.msgType = .data ∧ x.2.2 = some r then x.1.payload else []).flatten

/-- **What the receive fiber has made of the frames `fs`.** -/
structure Demuxed (fs : List Frame) (s : Session) : Prop where
  /-- The headers handled are the first ones sent, in order. -/
  headers : s.handled.map Prod.fst = (fs.take s.handled.length).map Frame.hdr
  /-- A header that is decoded and not handled yet is the next one. -/
  next : midFrame s.recvPc = true → ∃ f, fs[s.handled.length]? = some f ∧ s.hdr = f.hdr
  /-- Between frames, the socket has the bytes of the frames not handled. -/
  between : s.sockClosed = false → betweenFrames s.recvPc = true →
    s.source.bytes = framesBytes (fs.drop s.handled.length)
  /-- Within a frame, its body is still to come, then the bytes of the frames after it. -/
  within : s.sockClosed = false → midFrame s.recvPc = true →
    ∀ f, fs[s.handled.length]? = some f →
      s.source.bytes = f.payload ++ framesBytes (fs.drop (s.handled.length + 1))
  /-- Decoding a header fails only after the last frame. -/
  ended : s.recvPc = .failed .decode ∨ s.recvPc = .done .decode →
    s.handled.length = fs.length
  /-- A frame was given to a stream with its id. -/
  named : ∀ h r, (h, some r) ∈ s.handled → ∃ o, s.objs[r]? = some o ∧ o.id = h.streamId
  /-- Each stream has received the bodies that were given to it. -/
  appended : ∀ (r : Ref) o, s.objs[r]? = some o → o.appended = delivered r fs s.handled

/-! ### The lists -/

theorem handled_le (h : Demuxed fs s) : s.handled.length ≤ fs.length := by
  have hlen := congrArg List.length h.headers
  simp only [List.length_map, List.length_take] at hlen
  omega

/-- One more frame is handled. -/
theorem delivered_append {handled : List (Header × Option Ref)} {f : Frame}
    (hf : fs[handled.length]? = some f) (x : Header × Option Ref) :
    delivered r fs (handled ++ [x]) = delivered r fs handled ++
      if f.hdr.msgType = .data ∧ x.2 = some r then f.payload else [] := by
  obtain ⟨hlt, rfl⟩ := List.getElem?_eq_some_iff.mp hf
  have hsplit : fs = fs.take handled.length ++ fs[handled.length] ::
      fs.drop (handled.length + 1) := by simp
  have hlen : (fs.take handled.length).length = handled.length := by
    rw [List.length_take]
    omega
  have hnew : fs.zip (handled ++ [x]) =
      (fs.take handled.length).zip handled ++ [(fs[handled.length], x)] := by
    conv_lhs => rw [hsplit]
    rw [List.zip_append hlen, List.zip_cons_cons, List.zip_nil_right]
  have hold : fs.zip handled = (fs.take handled.length).zip handled := by
    calc fs.zip handled
        = (fs.take handled.length ++ fs.drop handled.length).zip (handled ++ []) := by
          rw [List.take_append_drop, List.append_nil]
      _ = (fs.take handled.length).zip handled := by
          rw [List.zip_append hlen, List.zip_nil_right, List.append_nil]
  rw [delivered, delivered, hnew, hold, List.map_append, List.flatten_append]
  simp

/-- A stream that no frame was given to has received nothing. -/
theorem delivered_eq_nil {handled : List (Header × Option Ref)}
    (h : ∀ x ∈ handled, x.2 ≠ some r) : delivered r fs handled = [] := by
  rw [delivered, List.flatten_eq_nil_iff]
  intro l hl
  obtain ⟨⟨f, x⟩, hx, rfl⟩ := List.mem_map.mp hl
  rw [if_neg fun hc => h x (List.of_mem_zip hx).2 hc.2]

/-! ### What the application has got -/

/-- The bytes that `recv` has returned, concatenated. -/
def got (o : MuxStream) : List UInt8 := (o.recvLog.map Prod.snd).flatten

/-- **The bytes of a stream are accounted for**: what was appended is what the application has got,
and then what is in `recv_buff_`. -/
def Accounted (o : MuxStream) : Prop := got o ++ o.recvBuff = o.appended

/-- A call that returns no bytes. -/
theorem Accounted.returns (ho : Accounted o) (ret : ℤ) :
    Accounted { o with recvLog := o.recvLog ++ [(ret, [])] } := by
  simpa [Accounted, got] using ho

/-- A call that takes bytes takes them from the front of the buffer. -/
theorem Accounted.takeNext (ho : Accounted o) (count : ℕ) : Accounted (o.takeNext count) := by
  have happended : (o.takeNext count).appended = got o ++ o.recvBuff := ho.symm
  rw [Accounted, happended]
  by_cases hlt : count < o.recvBuff.length
  · simp [MuxStream.takeNext, got, hlt]
  · simp [MuxStream.takeNext, got, hlt]

theorem Accounted.recvCall (ho : Accounted o) (count : ℕ) : Accounted (o.recvCall count) := by
  rw [MuxStream.recvCall]
  split_ifs
  · exact ho.returns 0
  · exact ho
  · exact ho.takeNext count

theorem Accounted.recvWake (ho : Accounted o) {i : ℕ} (h : o.recvWake i = some o') :
    Accounted o' := by
  rw [MuxStream.recvWake] at h
  split at h
  · exact Option.some.inj h ▸ ho.returns (-1)
  · next count toks _ _ =>
      split_ifs at h
      · exact Option.some.inj h ▸ ho
      · have hreader : Accounted { o with readers := o.readers.eraseIdx i, recvDone := toks } := ho
        exact Option.some.inj h ▸ hreader.takeNext count
  · cases h

/-- **Every member function keeps the account.** -/
theorem ObjStep.accounted (h : ObjStep s a r o o') (ho : Accounted o) : Accounted o' := by
  cases h with
  | increase _ _ h =>
      obtain ⟨_, _, _, rfl⟩ := increaseSendWindow_frame h
      exact ho
  | check _ _ h =>
      obtain ⟨_, rfl⟩ := readDataCheck_frame h
      exact ho
  | body _ _ _ h =>
      have happend : ∀ bytes, Accounted { o with
          recvBuff := o.recvBuff ++ bytes, appended := o.appended ++ bytes } := by
        intro bytes
        rw [Accounted, ← ho, List.append_assoc]
        rfl
      rcases h with h | h
      · obtain ⟨-, -, _, _, rfl⟩ := readDataBody_ok h
        exact happend _
      · obtain rfl := readDataBody_err h
        exact happend _
  | task =>
      obtain ⟨_, _, h⟩ := sendTask_frame _ _ _
      rw [h]
      exact ho
  | taskFail =>
      obtain ⟨_, _, h⟩ := sendTask_frame _ _ _
      rw [sendTaskDone, h]
      exact ho
  | destroy | closeCall =>
      obtain ⟨_, _, _, _, _, h⟩ := MuxStream.closeCall_frame _
      rw [h]
      exact ho
  | sendCall =>
      obtain ⟨_, _, h⟩ := MuxStream.sendCall_frame _ _ _
      rw [h]
      exact ho
  | sendWake _ h =>
      obtain ⟨_, _, _, rfl⟩ := sendWake_frame h
      exact ho
  | sendTimeout _ h =>
      obtain ⟨_, _, rfl⟩ := sendTimeout_frame h
      exact ho
  | recvCall => exact ho.recvCall _
  | recvWake _ _ h => exact ho.recvWake h
  | _ => exact ho

/-- **What was appended to a stream** in a session is what the application has got from it, and
then what it has not read yet. -/
theorem accounted_of_reach {type : MuxStreamType} {src : Source}
    (h : Reach Session.step always (Session.init type src) s) :
    ∀ (r : Ref) o, s.objs[r]? = some o → Accounted o := by
  refine h.invariant (fun s => ∀ (r : Ref) o, s.objs[r]? = some o → Accounted o)
    (by simp [Session.init]) fun hinv _ hstep => ?_
  refine forall_objs_of_step hstep (fun r o o' _ hobj ho => hobj.accounted ho)
    (fun o hnew => ?_) hinv
  cases hnew <;> rfl

/-! ### Reading from a socket without bytes -/

/-- A read on a socket without bytes leaves it without bytes. -/
theorem readN_of_empty {src src' : Source} {n : ℕ} {ret : ℤ} {bytes : List UInt8}
    (hsrc : src.bytes = []) (h : readNFromSocketStream src n = some (ret, bytes, src')) :
    bytes = [] ∧ src'.bytes = [] := by
  cases n with
  | zero =>
      rw [readNFromSocketStream_zero, Option.some.injEq, Prod.mk.injEq, Prod.mk.injEq] at h
      exact ⟨h.2.1.symm, h.2.2 ▸ hsrc⟩
  | succ n =>
      obtain ⟨e, cuts, -, hres⟩ := readNFromSocketStream_short (by simp [hsrc]) h
      rw [Prod.mk.injEq, Prod.mk.injEq] at hres
      rw [hres.2.1, hres.2.2]
      exact ⟨hsrc, rfl⟩

/-- There is no header on a socket without bytes. -/
theorem recvAndDecode_of_empty {old hdr : Header} {src src' : Source} {ret : ℤ}
    (hsrc : src.bytes = []) (h : recvAndDecode old src = some (ret, hdr, src')) :
    ret ≤ 0 ∧ src'.bytes = [] := by
  simp only [recvAndDecode, Option.bind_eq_bind, Option.bind_eq_some_iff] at h
  obtain ⟨⟨n, bytes, src₁⟩, hread, h⟩ := h
  obtain ⟨e, cuts, -, hres⟩ :=
    readNFromSocketStream_short (by rw [hsrc]; decide) hread
  rw [Prod.mk.injEq, Prod.mk.injEq] at hres
  obtain ⟨rfl, rfl, rfl⟩ := hres
  simp only [if_pos e.answer_le, Option.some.injEq, Prod.mk.injEq] at h
  obtain ⟨rfl, -, rfl⟩ := h
  exact ⟨by decide, rfl⟩

/-! ### Frames and the heap -/

/-- A frame without a body: any but a Data frame that announces one. -/
theorem payload_eq_nil {f : Frame} (hf : f.WellFormed)
    (h : ¬ (f.hdr.msgType = .data ∧ 0 < f.hdr.length)) : f.payload = [] := by
  rw [Frame.WellFormed] at hf
  split at hf
  · next htype =>
      have hzero : ¬ 0 < f.hdr.length.toNat := fun hlt =>
        h ⟨htype, UInt32.lt_iff_toNat_lt.mpr hlt⟩
      exact List.eq_nil_of_length_eq_zero (by omega)
  · exact List.eq_nil_of_length_eq_zero hf

/-- Only `read_data` adds to what a stream has received. -/
theorem appended_of_step (h : s.step a = some s') (ha : a ≠ .recv .readBody)
    (ho' : s'.objs[r]? = some o') :
    (∃ o, s.objs[r]? = some o ∧ o'.appended = o.appended) ∨
      (s.objs[r]? = none ∧ o'.appended = []) := by
  cases ho : s.objs[r]? with
  | some o =>
      obtain ⟨o₁, ho₁, hstep⟩ := (step_objs h).old r o ho
      obtain rfl : o' = o₁ := Option.some.inj (ho'.symm.trans ho₁)
      exact .inl ⟨o, rfl, (hstep.readFrame ha).appended⟩
  | none =>
      obtain ⟨-, hnew⟩ := (step_objs h).new r o' ho ho'
      exact .inr ⟨rfl, by cases hnew <;> rfl⟩

/-- A stream object keeps its id. -/
theorem exists_id_of_step (h : s.step a = some s') {id : UInt32}
    (ho : ∃ o, s.objs[r]? = some o ∧ o.id = id) : ∃ o, s'.objs[r]? = some o ∧ o.id = id := by
  obtain ⟨o, ho, hid⟩ := ho
  obtain ⟨o', ho', hstep⟩ := (step_objs h).old r o ho
  exact ⟨o', ho', hstep.id_eq.trans hid⟩

/-! ### Steps that handle no frame -/

/-- Two places of the receive fiber that stand at the same point of the byte stream. -/
inductive SamePlace : RecvPc → RecvPc → Prop
  | same {p : RecvPc} : SamePlace p p
  | mid {p q : RecvPc} : midFrame p = true → midFrame q = true → SamePlace p q
  | closed {p : RecvPc} : SamePlace p (.done .closed)
  | exit {why : LoopEnd} : SamePlace (.failed why) (.done why)

variable {p q : RecvPc}

theorem SamePlace.midFrame (h : SamePlace p q) (hq : midFrame q = true) :
    Session.midFrame p = true := by
  cases h with
  | same => exact hq
  | mid hp => exact hp
  | closed | exit => exact absurd hq (by simp [Session.midFrame])

theorem SamePlace.betweenFrames (h : SamePlace p q) (hq : betweenFrames q = true) :
    Session.betweenFrames p = true := by
  cases h with
  | same => exact hq
  | mid _ hmid => cases q <;> simp_all [Session.midFrame, Session.betweenFrames]
  | closed => exact absurd hq (by simp [Session.betweenFrames])
  | exit => rename_i why; cases why <;> simp_all [Session.betweenFrames]

theorem SamePlace.ended (h : SamePlace p q) (hq : q = .failed .decode ∨ q = .done .decode) :
    p = .failed .decode ∨ p = .done .decode := by
  cases h with
  | same => exact hq
  | mid _ hmid =>
      obtain rfl | rfl := hq <;> exact absurd hmid (by simp [Session.midFrame])
  | closed => exact absurd hq (by simp)
  | exit => exact .inl (by simpa using hq)

/-- A step that decodes and handles no frame. -/
theorem Demuxed.keep (hd : Demuxed fs s) (hok : CloseOk s) (h : s.step a = some s')
    (hhandled : s'.handled = s.handled) (hhdr : s'.hdr = s.hdr)
    (hsrc : s'.source = s.source ∨ s'.sockClosed = true)
    (hpc : SamePlace s.recvPc s'.recvPc)
    (happ : ∀ (r : Ref) o', s'.objs[r]? = some o' →
      (∃ o, s.objs[r]? = some o ∧ o'.appended = o.appended) ∨
        (s.objs[r]? = none ∧ o'.appended = [])) : Demuxed fs s' := by
  have hsource : s'.sockClosed = false → s.sockClosed = false ∧ s'.source = s.source := by
    intro hopen
    refine ⟨sockOpen_of_step hok h hopen, ?_⟩
    obtain hsrc | hclosed := hsrc
    · exact hsrc
    · rw [hclosed] at hopen
      exact absurd hopen (by simp)
  constructor
  case headers => rw [hhandled]; exact hd.headers
  case next =>
    intro hmid
    rw [hhandled, hhdr]
    exact hd.next (hpc.midFrame hmid)
  case between =>
    intro hopen hbet
    rw [hhandled, (hsource hopen).2]
    exact hd.between (hsource hopen).1 (hpc.betweenFrames hbet)
  case within =>
    intro hopen hmid
    rw [hhandled, (hsource hopen).2]
    exact hd.within (hsource hopen).1 (hpc.midFrame hmid)
  case ended =>
    intro hend
    rw [hhandled]
    exact hd.ended (hpc.ended hend)
  case named =>
    rw [hhandled]
    exact fun id r hr => exists_id_of_step h (hd.named id r hr)
  case appended =>
    intro r o' ho'
    rw [hhandled]
    obtain ⟨o, ho, heq⟩ | ⟨hnone, heq⟩ := happ r o' ho'
    · rw [heq]; exact hd.appended r o ho
    · rw [heq, delivered_eq_nil]
      intro x hx hr
      obtain ⟨o, ho, -⟩ := hd.named x.1 r (hr ▸ hx)
      exact absurd (hnone.symm.trans ho) (by simp)

/-! ### Steps that handle a frame -/

/-- The handler of the frame at hand returns `1`. -/
theorem Demuxed.handle (hd : Demuxed fs s) (hreg : RegInv s) (h : s.step a = some s')
    (hmid : midFrame s.recvPc = true)
    (hhandled : s'.handled = s.handled ++ [(s.hdr, s.streams s.hdr.streamId)])
    (hpc : s'.recvPc = .top) {f : Frame} (hf : fs[s.handled.length]? = some f)
    (hsrc : s'.sockClosed = false →
      s'.source.bytes = framesBytes (fs.drop (s.handled.length + 1)))
    (happ : ∀ (r : Ref) o', s'.objs[r]? = some o' → ∃ o, s.objs[r]? = some o ∧
      o'.appended = o.appended ++
        if s.hdr.msgType = .data ∧ s.streams s.hdr.streamId = some r then f.payload
        else []) : Demuxed fs s' := by
  obtain ⟨f', hf', hhdr⟩ := hd.next hmid
  obtain rfl : f = f' := Option.some.inj (hf.symm.trans hf')
  have hlen : s'.handled.length = s.handled.length + 1 := by
    rw [hhandled, List.length_append, List.length_singleton]
  constructor
  case headers =>
    rw [hlen, List.take_add_one, hf, hhandled, List.map_append, hd.headers, List.map_append]
    simp [hhdr]
  case next => simp [hpc, midFrame]
  case between => rw [hlen]; exact fun hopen _ => hsrc hopen
  case within => simp [hpc, midFrame]
  case ended => simp [hpc]
  case named =>
    intro hdr r hr
    rw [hhandled, List.mem_append, List.mem_singleton, Prod.mk.injEq] at hr
    obtain hr | ⟨rfl, hr⟩ := hr
    · exact exists_id_of_step h (hd.named hdr r hr)
    · exact exists_id_of_step h (hreg.ids _ r hr.symm)
  case appended =>
    intro r o' ho'
    obtain ⟨o, ho, heq⟩ := happ r o' ho'
    rw [heq, hd.appended r o ho, hhandled, delivered_append hf, ← hhdr]

/-- The handler of a frame without a body. -/
theorem Demuxed.handleEmpty (hd : Demuxed fs s) (hreg : RegInv s) (hok : CloseOk s)
    (h : s.step a = some s') (hwf : ∀ f ∈ fs, f.WellFormed)
    (hmid : midFrame s.recvPc = true)
    (hhandled : s'.handled = s.handled ++ [(s.hdr, s.streams s.hdr.streamId)])
    (hpc : s'.recvPc = .top) (hsrc : s'.source = s.source)
    (hempty : ¬ (s.hdr.msgType = .data ∧ 0 < s.hdr.length))
    (happ : ∀ (r : Ref) o', s'.objs[r]? = some o' →
      ∃ o, s.objs[r]? = some o ∧ o'.appended = o.appended) : Demuxed fs s' := by
  obtain ⟨f, hf, hhdr⟩ := hd.next hmid
  have hnil : f.payload = [] :=
    payload_eq_nil (hwf f (List.mem_of_getElem? hf)) (hhdr ▸ hempty)
  refine hd.handle hreg h hmid hhandled hpc hf ?_ ?_
  · intro hopen
    rw [hsrc, hd.within (sockOpen_of_step hok h hopen) hmid f hf, hnil, List.nil_append]
  · intro r o' ho'
    obtain ⟨o, ho, heq⟩ := happ r o' ho'
    exact ⟨o, ho, by simp [heq, hnil]⟩

/-- The next header is read, or there is none. -/
theorem Demuxed.decode {ret : ℤ} {hdr : Header} {src : Source} (hd : Demuxed fs s)
    (hpc : s.recvPc = .top) (hopen : s.sockClosed = false)
    (hdec : recvAndDecode s.hdr s.source = some (ret, hdr, src)) :
    (ret ≤ 0 → Demuxed fs { s with hdr := hdr, source := src, recvPc := .failed .decode }) ∧
    (0 < ret → Demuxed fs { s with hdr := hdr, source := src, recvPc := .decoded }) := by
  have hbytes := hd.between hopen (by simp [hpc, betweenFrames])
  cases hdrop : fs.drop s.handled.length with
  | nil =>
      rw [hdrop, framesBytes_nil] at hbytes
      obtain ⟨hret, hsrc⟩ := recvAndDecode_of_empty hbytes hdec
      have hlen : s.handled.length = fs.length :=
        Nat.le_antisymm (handled_le hd) (List.drop_eq_nil_iff.mp hdrop)
      refine ⟨fun _ => ?_, fun hpos => absurd hret (by omega)⟩
      exact ⟨hd.headers, by simp [midFrame], fun _ _ => by simp [hsrc, hdrop],
        by simp [midFrame], fun _ => hlen, hd.named, hd.appended⟩
  | cons f rest =>
      obtain ⟨hf, hrest⟩ : fs[s.handled.length]? = some f ∧
          fs.drop (s.handled.length + 1) = rest := by
        refine ⟨by rw [← List.head?_drop, hdrop]; rfl, ?_⟩
        rw [← List.tail_drop, hdrop]
        rfl
      rw [hdrop, framesBytes_cons, Frame.bytes, List.append_assoc] at hbytes
      obtain ⟨cuts, hres⟩ := @recvAndDecode_encode f.hdr s.hdr s.source _ hbytes
      rw [hdec, Option.some.injEq, Prod.mk.injEq, Prod.mk.injEq] at hres
      obtain ⟨rfl, rfl, rfl⟩ := hres
      refine ⟨fun hneg => absurd hneg (by decide), fun _ => ?_⟩
      refine ⟨hd.headers, fun _ => ⟨f, hf, rfl⟩, by simp [betweenFrames], ?_, by simp,
        hd.named, hd.appended⟩
      intro _ _ f' hf'
      obtain rfl : f = f' := Option.some.inj (hf.symm.trans hf')
      rw [hrest]

/-- The body of the frame at hand is read. -/
theorem Demuxed.read {ret : ℤ} {bytes : List UInt8} {src : Source} (hd : Demuxed fs s)
    (hwf : ∀ f ∈ fs, f.WellFormed) (hmid : midFrame s.recvPc = true)
    (hopen : s.sockClosed = false) (htype : s.hdr.msgType = .data) {f : Frame}
    (hf : fs[s.handled.length]? = some f)
    (hread : readNFromSocketStream s.source s.hdr.length.toNat = some (ret, bytes, src)) :
    bytes = f.payload ∧ src.bytes = framesBytes (fs.drop (s.handled.length + 1)) := by
  obtain ⟨f', hf', hhdr⟩ := hd.next hmid
  obtain rfl : f = f' := Option.some.inj (hf.symm.trans hf')
  have hbytes := hd.within hopen hmid f hf
  have hlen : f.payload.length = s.hdr.length.toNat := by
    have hwell := hwf f (List.mem_of_getElem? hf)
    rw [Frame.WellFormed, ← hhdr, if_pos htype] at hwell
    exact hwell
  by_cases hzero : s.hdr.length.toNat = 0
  · rw [hzero, readNFromSocketStream_zero, Option.some.injEq, Prod.mk.injEq,
      Prod.mk.injEq] at hread
    have hnil : f.payload = [] := List.eq_nil_of_length_eq_zero (hlen.trans hzero)
    rw [hnil, List.nil_append] at hbytes
    exact ⟨by rw [hnil, ← hread.2.1], by rw [← hread.2.2, hbytes]⟩
  · obtain ⟨cuts, hres⟩ := @readNFromSocketStream_eq s.source _ (Nat.pos_of_ne_zero hzero)
      (by rw [hbytes, List.length_append]; omega)
    rw [hread, Option.some.injEq, Prod.mk.injEq, Prod.mk.injEq, hbytes, ← hlen] at hres
    rw [hres.2.1, hres.2.2, List.take_left, List.drop_left]
    exact ⟨rfl, rfl⟩

/-! ### The run -/

/-- The type of the frame at hand, at the places that are reached for some types only. -/
def FrameType (s : Session) : Prop :=
  match s.recvPc with
  | .rstReturn | .ack _ _ | .emplace _ | .lookup | .flags _ =>
      s.hdr.msgType = .data ∨ s.hdr.msgType = .windowUpdate
  | .body _ _ | .discard => s.hdr.msgType = .data
  | .top | .decoded | .failed _ | .done _ => True

theorem frameType_of_step (ht : FrameType s) (h : s.step a = some s') : FrameType s' := by
  by_cases hrecv : ∃ b, a = .recv b
  · obtain ⟨b, rfl⟩ := hrecv
    cases step_cases h with
    | recv hc =>
      cases hc with
      | noSyn _ _ htype | refused _ _ htype | accept _ _ htype => exact htype
      | rstReturn hpc | ackWrite hpc | found hpc =>
          simp only [FrameType, hpc] at ht
          exact ht
      | emplace hpc =>
          simp only [FrameType, hpc] at ht
          obtain ⟨m, he⟩ := s.acceptEmplace_frame _
          rw [he]
          exact ht
      | unknownBody _ _ _ htype => exact htype
      | check hpc _ _ hne =>
          simp only [FrameType, hpc] at ht
          exact ht.resolve_right hne
      | bodyAbort => exact ht
      | _ => trivial
  · have hf := step_recvFrame h fun b hb => hrecv ⟨b, hb⟩
    rw [FrameType, hf.recvPc, hf.hdr]
    exact ht

/-- What every step keeps. -/
structure DemuxInv (fs : List Frame) (s : Session) : Prop where
  closeOk : CloseOk s
  reg : RegInv s
  windows : WindowsInv s
  type : FrameType s
  dead : s.sockClosed = true → s.source.bytes = []
  demuxed : handlerFailed s.recvPc = false → Demuxed fs s

/-- A closed socket has no bytes. -/
theorem DemuxInv.dead_step (hinv : DemuxInv fs s) (h : s.step a = some s')
    (hclosed : s'.sockClosed = true) : s'.source.bytes = [] := by
  by_cases hrecv : ∃ b, a = .recv b
  · obtain ⟨b, rfl⟩ := hrecv
    cases step_cases h with
    | recv hc =>
      cases hc with
      | decodeErr _ hd | decoded _ hd =>
          exact absurd (hinv.closeOk.sockOpen hd) (by simpa [sockClosed] using hclosed)
      | emplace =>
          obtain ⟨m, he⟩ := s.acceptEmplace_frame _
          rw [he] at hclosed ⊢
          exact hinv.dead hclosed
      | body _ _ _ hread | bodyErr _ _ _ hread | discard _ hread =>
          exact (readN_of_empty (hinv.dead hclosed) hread).2
      | exit =>
          obtain ⟨heq, hmono⟩ | ⟨-, hnil⟩ := (beginClose_recvFrame (s := s)).source
          · exact (congrArg Source.bytes heq).trans (hinv.dead (hmono hclosed))
          · exact hnil
      | _ => exact hinv.dead hclosed
  · obtain ⟨heq, hmono⟩ | ⟨-, hnil⟩ :=
      (step_recvFrame h fun b hb => hrecv ⟨b, hb⟩).source
    · rw [heq]; exact hinv.dead (hmono hclosed)
    · exact hnil

/-- A body is read into the buffer of the stream that the registry names. -/
theorem DemuxInv.body_step {close : Bool} {ret : ℤ} {bytes : List UInt8} {src : Source}
    (hinv : DemuxInv fs s) (hwf : ∀ f ∈ fs, f.WellFormed) (h : s.step a =
      some ({ s with source := src }.modObj r fun _ => o').handledFrame)
    (hpc : s.recvPc = .body r close) (ho : s.objs[r]? = some o) (hlock : o.recvLock = false)
    (hread : readNFromSocketStream s.source s.hdr.length.toNat = some (ret, bytes, src))
    (hb : o.readDataBody s.hdr.length close ret bytes = .ok o') :
    Demuxed fs ({ s with source := src }.modObj r fun _ => o').handledFrame := by
  have hd := hinv.demuxed (by simp [hpc, handlerFailed])
  have hmid : midFrame s.recvPc = true := by simp [hpc, midFrame]
  have htype : s.hdr.msgType = .data := by simpa only [FrameType, hpc] using hinv.type
  have hreg : s.streams s.hdr.streamId = some r := hinv.reg.found r (by rw [lookedUp, hpc])
  obtain ⟨f, hf, -⟩ := hd.next hmid
  obtain ⟨o₁, ho₁, hfit⟩ := hinv.windows.body r close hpc
  obtain rfl : o = o₁ := Option.some.inj (ho.symm.trans ho₁)
  have hlen := ((hinv.windows.objs r o ho).body_ok hfit hlock hread hb).2
  obtain ⟨-, hne, _, _, rfl⟩ := readDataBody_ok hb
  -- a closed socket has no body to read
  have hopen : s.sockClosed = false := by
    cases hc : s.sockClosed with
    | false => rfl
    | true =>
        rw [(readN_of_empty (hinv.dead hc) hread).1] at hlen
        exact absurd (UInt32.toNat_inj.mp hlen.symm) hne
  obtain ⟨rfl, hsrc⟩ := hd.read hwf hmid hopen htype hf hread
  refine hd.handle hinv.reg h hmid rfl rfl hf (fun _ => hsrc) fun q o' ho' => ?_
  simp only [modObj, handledFrame, List.getElem?_modify, Option.map_eq_map] at ho'
  by_cases hq : r = q
  · subst hq
    simp only [ho, if_true, Option.map_some, Option.some.injEq] at ho'
    exact ⟨o, ho, by rw [← ho', if_pos ⟨htype, hreg⟩]⟩
  · simp only [if_neg hq, Option.map_id_fun', id_eq] at ho'
    refine ⟨o', ho', ?_⟩
    rw [if_neg fun hc => hq (Option.some.inj (hreg.symm.trans hc.2)), List.append_nil]

/-- The receive fiber stays in step with the sender, in one of its own steps. -/
theorem DemuxInv.recv_step {b : RecvAction} (hinv : DemuxInv fs s)
    (hwf : ∀ f ∈ fs, f.WellFormed) (h : s.step (.recv b) = some s')
    (hok : handlerFailed s'.recvPc = false) : Demuxed fs s' := by
  have hsame : ∀ {s₁ : Session}, s₁.objs = s.objs → ∀ (r : Ref) o', s₁.objs[r]? = some o' →
      ∃ o, s.objs[r]? = some o ∧ o'.appended = o.appended :=
    fun heq r o' ho' => ⟨o', heq ▸ ho', rfl⟩
  cases step_cases h with
  | recv hc =>
    -- a step that keeps its place, from a place where no handler has failed
    have hkeep : b ≠ .readBody → handlerFailed s.recvPc = false →
        s'.handled = s.handled → s'.hdr = s.hdr → s'.source = s.source →
        SamePlace s.recvPc s'.recvPc → Demuxed fs s' := fun hb hs hh hhdr hsrc hpc =>
      (hinv.demuxed hs).keep hinv.closeOk h hh hhdr (.inl hsrc) hpc
        fun _ _ ho' => appended_of_step h (by simpa using hb) ho'
    cases hc with
    | closedTop hpc =>
        exact hkeep (by simp) (by simp [hpc, handlerFailed]) rfl rfl rfl .closed
    | closedDecoded hpc =>
        exact hkeep (by simp) (by simp [hpc, handlerFailed]) rfl rfl rfl .closed
    | noSyn hpc | refused hpc | accept hpc | rstReturn hpc | ackWrite hpc | found hpc
    | unknownBody hpc | check hpc =>
        exact hkeep (by simp) (by simp [hpc, handlerFailed]) rfl rfl rfl
          (.mid (by simp [hpc, midFrame]) rfl)
    | emplace hpc =>
        have hs : handlerFailed s.recvPc = false := by simp [hpc, handlerFailed]
        have hmid : midFrame s.recvPc = true := by simp [hpc, midFrame]
        obtain ⟨m, he⟩ := s.acceptEmplace_frame _
        exact hkeep (by simp) hs (by rw [he]) (by rw [he]) (by rw [he]) (.mid hmid rfl)
    | @exit why hpc =>
        have hf := beginClose_recvFrame (s := s)
        refine (hinv.demuxed ?_).keep hinv.closeOk h hf.handled hf.hdr ?_ (hpc ▸ .exit)
          fun _ _ ho' => appended_of_step h (by simp) ho'
        · cases why <;> simp_all [handlerFailed]
        · exact hf.source.imp And.left And.left
    | decodeErr hpc hd hdec hret =>
        exact ((hinv.demuxed (by simp [hpc, handlerFailed])).decode hpc
          (hinv.closeOk.sockOpen hd) hdec).1 hret
    | decoded hpc hd hdec hret =>
        exact ((hinv.demuxed (by simp [hpc, handlerFailed])).decode hpc
          (hinv.closeOk.sockOpen hd) hdec).2 hret
    | pingSyn hpc _ htype | pong hpc _ htype | goAway hpc _ htype =>
        exact (hinv.demuxed (by simp [hpc, handlerFailed])).handleEmpty hinv.reg hinv.closeOk
          h hwf (by simp [hpc, midFrame]) rfl rfl rfl (by simp [htype]) (hsame rfl)
    | unknown hpc _ _ hempty =>
        exact (hinv.demuxed (by simp [hpc, handlerFailed])).handleEmpty hinv.reg hinv.closeOk
          h hwf (by simp [hpc, midFrame]) rfl rfl rfl hempty (hsame rfl)
    | update hpc _ _ htype =>
        refine (hinv.demuxed (by simp [hpc, handlerFailed])).handleEmpty hinv.reg hinv.closeOk
          h hwf (by simp [hpc, midFrame]) rfl rfl rfl (by simp [htype]) fun r o' ho' => ?_
        obtain hold | ⟨hnone, -⟩ := appended_of_step h (by simp) ho'
        · exact hold
        · cases ((step_objs h).new r o' hnone ho').2
    | body hpc ho hlock hread hb =>
        exact hinv.body_step hwf h hpc ho hlock hread hb
    | bodyAbort hpc =>
        exact (hinv.demuxed hok).keep hinv.closeOk h rfl rfl (.inl rfl) .same
          fun r o' ho' => .inl (hsame rfl r o' ho')
    | discard hpc hread =>
        have hd := hinv.demuxed (by simp [hpc, handlerFailed])
        have hmid : midFrame s.recvPc = true := by simp [hpc, midFrame]
        have htype : s.hdr.msgType = .data := by simpa only [FrameType, hpc] using hinv.type
        obtain ⟨f, hf, -⟩ := hd.next hmid
        refine hd.handle hinv.reg h hmid rfl rfl hf ?_ fun r o' ho' => ⟨o', ho', ?_⟩
        · exact fun hopen => (hd.read hwf hmid hopen htype hf hread).2
        · simp [hinv.reg.discard hpc]
    | goAwayErr | sameId | ackErr | updateErr | checkErr | bodyErr =>
        exact absurd hok (by simp [protoErr, handlerFailed])

/-- **Every step keeps the receive fiber in step with the sender.** -/
theorem DemuxInv.step (hinv : DemuxInv fs s) (hwf : ∀ f ∈ fs, f.WellFormed)
    (h : s.step a = some s') : DemuxInv fs s' := by
  refine ⟨closeOk_of_step hinv.closeOk h, hinv.reg.step h, hinv.windows.step h,
    frameType_of_step hinv.type h, hinv.dead_step h, fun hok => ?_⟩
  by_cases hrecv : ∃ b, a = .recv b
  · obtain ⟨b, rfl⟩ := hrecv
    exact hinv.recv_step hwf h hok
  · have hf := step_recvFrame h fun b hb => hrecv ⟨b, hb⟩
    rw [hf.recvPc] at hok
    refine (hinv.demuxed hok).keep hinv.closeOk h hf.handled hf.hdr
      (hf.source.imp And.left And.left) (hf.recvPc ▸ .same) fun r o' ho' => ?_
    exact appended_of_step h (fun ha => hrecv ⟨_, ha⟩) ho'

/-- **The receive loop stays in step with the sender.** Whatever frames the peer sends, in
whatever segments they arrive and however the receive fiber is interleaved with the others,
as long as no handler has returned `-1`: the frames handled are the first ones sent, the
bytes left on the socket are those of the frames that are not handled, and each stream has
received exactly the bodies of the Data frames for which the registry named it. -/
theorem demux_of_reach {type : MuxStreamType} {src : Source} (hwf : ∀ f ∈ fs, f.WellFormed)
    (hsrc : src.bytes = framesBytes fs)
    (h : Reach Session.step always (Session.init type src) s)
    (hok : handlerFailed s.recvPc = false) : Demuxed fs s := by
  have hstart : Demuxed fs (Session.init type src) :=
    ⟨by simp [Session.init], by simp [Session.init, midFrame],
      by simp [Session.init, hsrc], by simp [Session.init, midFrame],
      by simp [Session.init], by simp [Session.init], by simp [Session.init]⟩
  have hinit : DemuxInv fs (Session.init type src) :=
    ⟨by simp [CloseOk, Session.init], .init type src,
      ⟨by simp [Session.init], by simp [Session.init]⟩, trivial,
      by simp [sockClosed, Session.init], fun _ => hstart⟩
  have hinv := h.invariant (DemuxInv fs) hinit fun hinv _ hs => hinv.step hwf hs
  exact hinv.demuxed hok

/-- A peer that opens a stream with a first body, sends to a stream that does not exist, and
sends again to the one it opened. -/
def threeBodies : List Frame :=
  [⟨⟨.data, flagSYN, 3, 2⟩, some [1, 2]⟩, ⟨⟨.data, 0, 9, 1⟩, some [7]⟩,
    ⟨⟨.data, 0, 3, 1⟩, some [5]⟩]

/-- The theorem at three frames that arrive in small segments; the second is discarded. -/
theorem demux_three_bodies :
    ∃ s, Reach Session.step always
        (Session.init .server ⟨framesBytes threeBodies, [0, 4, 2, 8, 0], none⟩) s ∧
      s.handled.length = 3 ∧ s.objs.map MuxStream.appended = [[1, 2, 5]] ∧
      Demuxed threeBodies s := by
  obtain ⟨s, hs, hlen, hbytes, hok⟩ : ∃ s, Reach Session.step always
      (Session.init .server ⟨framesBytes threeBodies, [0, 4, 2, 8, 0], none⟩) s ∧
      s.handled.length = 3 ∧ s.objs.map MuxStream.appended = [[1, 2, 5]] ∧
      handlerFailed s.recvPc = false :=
    Reach.exists_of_exec [.recv .recvHeader, .recv .dispatch, .recv (.ackWrite 12),
      .recv .emplace, .recv .lookup, .recv .processFlags, .recv .readBody,
      .recv .recvHeader, .recv .dispatch, .recv .lookup, .recv .discard,
      .recv .recvHeader, .recv .dispatch, .recv .lookup, .recv .processFlags,
      .recv .readBody] (by decide +kernel)
  exact ⟨s, hs, hlen, hbytes, demux_of_reach (by decide) rfl hs hok⟩

end ArchNet.Session

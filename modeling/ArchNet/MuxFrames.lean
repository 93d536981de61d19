import ArchNet.MuxSteps

/-!
# What One Step of a Session Leaves Alone

The cases of `ArchNet.MuxSteps` regrouped by part of the state, so that an invariant about
one part is proved from what can happen to that part.

## Main results

* `step_objs`: **the stream objects** — an object that exists is changed by at most one
  member function (`ObjStep`), and at most one object is created.
* `step_streams`: **the registry** — it changes only where a stream is registered by one of
  the two `emplace`s or erased by `close_stream`, with its mutex free.
* `step_sendChan`: **the queue** — the send fiber takes the first task, at most one task is
  appended, and `Queued` says which action queues which task.
* `step_recvFrame`, `step_sendFrame`: what the other fibers leave alone of the receive
  fiber and of what is written to the socket.
* `step_close`: **the end of the session** — `shut_down_` is never reset, and a socket that
  has been closed stays closed.
-/

namespace ArchNet.Session

open MuxStream

variable {s s' s₁ : Session} {a : Action} {b : SendAction} {t : Task} {r : Ref}
  {o o' : MuxStream}

/-! ### What the operations touch -/

/-- `exit_err()` touches `shut_down_` and the progress of `close()`. -/
theorem beginClose_frame (s : Session) :
    ∃ d pc, s.beginClose = { s with shutDown := d, closePc := pc } := by
  rw [beginClose]
  split
  · exact ⟨s.shutDown, s.closePc, rfl⟩
  · exact ⟨true, .begun, rfl⟩

/-- `emplace` touches the registry. -/
theorem emplaceStream_frame (s : Session) (id : UInt32) (r : Ref) :
    ∃ m, s.emplaceStream id r = { s with streams := m } := by
  rw [emplaceStream]
  split
  · exact ⟨s.streams, rfl⟩
  · exact ⟨_, rfl⟩

/-- An accepted stream is registered and handed out. -/
theorem acceptEmplace_frame (s : Session) (r : Ref) :
    ∃ m, s.acceptEmplace r = { s with
      streams := m, objs := s.objs.modify r fun o => { o with handed := true }
      acceptChn := s.acceptChn ++ [some r], recvPc := .lookup } := by
  obtain ⟨m, he⟩ := s.emplaceStream_frame s.hdr.streamId r
  exact ⟨m, by rw [acceptEmplace, he]; rfl⟩

/-- An opened stream is registered and handed to the caller that waits for it. -/
theorem openEmplace_frame (s : Session) (r : Ref) (caller : ℕ) :
    ∃ m, s.openEmplace r caller = { s with
      streams := m
      objs := s.objs.modify r fun o => { o with handed := decide (caller ∈ s.openers) }
      openers := s.openers.erase caller, sendPc := .idle } := by
  obtain ⟨m, he⟩ := s.emplaceStream_frame (s.objId r) r
  exact ⟨m, by rw [openEmplace, he]; rfl⟩

/-- `open_stream()` queues its task unless the session is closed. -/
theorem openCall_frame (s : Session) :
    ∃ new openers n, s.openCall = { s with
      sendChan := s.sendChan ++ new, openers := openers, tickets := n } ∧
      (new = [] ∨ new = [.openStream s.tickets]) := by
  rw [openCall]
  split
  · exact ⟨[], s.openers, s.tickets, by rw [List.append_nil], .inl rfl⟩
  · exact ⟨[.openStream s.tickets], _, _, rfl, .inr rfl⟩

/-- `send()` changes its stream and queues at most its task. -/
theorem sendCall_frame (s : Session) (r : Ref) (p : Payload) (o : MuxStream) :
    ∃ new, s.sendCall r p o = { s with
      objs := s.objs.modify r fun _ => (o.sendCall s.tickets p.count).2
      sendChan := s.sendChan ++ new, tickets := s.tickets + 1 } ∧
      (new = [] ∨ new = [.data r s.tickets p]) := by
  rw [Session.sendCall]
  dsimp only
  split
  · exact ⟨[.data r s.tickets p], rfl, .inr rfl⟩
  · exact ⟨[], by rw [List.append_nil]; rfl, .inl rfl⟩

/-- `close()` on a stream changes the stream and queues at most a FIN. -/
theorem closeCall_frame (s : Session) (r : Ref) (o : MuxStream) :
    ∃ new, s.closeCall r o = { s with
      objs := s.objs.modify r fun _ => o.closeCall.2, sendChan := s.sendChan ++ new } ∧
      (new = [] ∨ ∃ flags, new = [.fin r flags]) := by
  rw [Session.closeCall]
  split
  · next flags o' h => exact ⟨[.fin r flags], by rw [h]; rfl, .inr ⟨flags, rfl⟩⟩
  · next o' h => exact ⟨[], by rw [h, List.append_nil]; rfl, .inl rfl⟩

/-- The end of a task touches the heap, the queue, the callers of `open_stream` and the
place of the send fiber, which is then in no socket send. -/
theorem endTask_frame (s : Session) (t : Task) (r : Ref) (ok : Bool) :
    ∃ objs new openers pc, s.endTask t r ok =
    { s with objs := objs, sendChan := s.sendChan ++ new, openers := openers, sendPc := pc } ∧
    (∀ t r f, pc ≠ .header t r f) ∧ (∀ t r f, pc ≠ .body t r f) ∧
    (new = [] ∨ new = [.fin r flagFIN]) := by
  have hres : ∀ t r f, (if ok then SendPc.idle else .failed) ≠ .header t r f ∧
      (if ok then SendPc.idle else .failed) ≠ .body t r f := by
    intro t r f
    cases ok <;> simp
  rw [endTask.eq_def]
  split
  · split
    · exact ⟨s.objs, [], s.openers, _, by rw [List.append_nil], by simp, by simp, .inl rfl⟩
    · exact ⟨_, [.fin r flagFIN], _, _, rfl, by simp, by simp, .inr rfl⟩
  · exact ⟨_, [], s.openers, _, by rw [List.append_nil]; rfl,
      fun t r f => (hres t r f).1, fun t r f => (hres t r f).2, .inl rfl⟩
  · exact ⟨_, [], s.openers, _, by rw [List.append_nil]; rfl,
      fun t r f => (hres t r f).1, fun t r f => (hres t r f).2, .inl rfl⟩
  · exact ⟨s.objs, [], s.openers, _, by rw [List.append_nil]; rfl,
      fun t r f => (hres t r f).1, fun t r f => (hres t r f).2, .inl rfl⟩

/-! ### Stream objects -/

/-- The send fiber runs task `t` on object `r`: it takes it from the queue, or is in one of
its socket sends. -/
def Executing (s : Session) (t : Task) (r : Ref) : Prop :=
  (s.sendPc = .idle ∧ s.sendChan.head? = some t) ∨
    (∃ f, s.sendPc = .header t r f) ∨ ∃ f, s.sendPc = .body t r f

/-- What one step can do to a stream object that exists: nothing, or one member function
of the stream, named by the action that runs it. -/
inductive ObjStep (s : Session) : Action → Ref → MuxStream → MuxStream → Prop
  | same {a : Action} {r : Ref} {o : MuxStream} : ObjStep s a r o o
  | increase {r : Ref} {o o' : MuxStream} :
      s.recvPc = .flags r → o.stateLock = false → o.increaseSendWindow s.hdr = some o' →
      ObjStep s (.recv .processFlags) r o o'
  | check {r : Ref} {o o' : MuxStream} :
      s.recvPc = .flags r → o.stateLock = false →
      (o.readDataCheck s.hdr = .error o' ∨
        ∃ close, o.readDataCheck s.hdr = .ok (close, o')) →
      ObjStep s (.recv .processFlags) r o o'
  | body {r : Ref} {o o' : MuxStream} {close : Bool} {ret : ℤ} {bytes : List UInt8}
      {src : Source} : s.recvPc = .body r close → o.recvLock = false →
      readNFromSocketStream s.source s.hdr.length.toNat = some (ret, bytes, src) →
      (o.readDataBody s.hdr.length close ret bytes = .ok o' ∨
        o.readDataBody s.hdr.length close ret bytes = .err o') →
      ObjStep s (.recv .readBody) r o o'
  | accepted {r : Ref} {o : MuxStream} :
      s.recvPc = .emplace r → ObjStep s (.recv .emplace) r o { o with handed := true }
  | opened {r : Ref} {o : MuxStream} {caller : ℕ} :
      s.sendPc = .emplace r caller →
      ObjStep s (.send .emplace) r o { o with handed := decide (caller ∈ s.openers) }
  | task {b : SendAction} {r : Ref} {o : MuxStream} {ticket : ℕ} {p : Payload} :
      s.sendPc = .idle → s.sendChan.head? = some (.data r ticket p) →
      ObjStep s (.send b) r o (o.sendTask ticket p.count).2
  | taskFail {b : SendAction} {r : Ref} {o : MuxStream} {ticket : ℕ} {p : Payload} :
      s.sendPc = .idle → s.sendChan.head? = some (.data r ticket p) →
      ObjStep s (.send b) r o ((o.sendTask ticket p.count).2.sendTaskDone ticket false)
  | taskEnd {b : SendAction} {r q : Ref} {o : MuxStream} {ticket : ℕ} {p : Payload}
      (ok : Bool) : s.Executing (.data q ticket p) r →
      ObjStep s (.send b) r o (o.sendTaskDone ticket ok)
  | finDone {b : SendAction} {r q : Ref} {o : MuxStream} {flags : UInt16} :
      s.Executing (.fin q flags) r → ObjStep s (.send b) r o o.finDone
  | destroy {b : SendAction} {r : Ref} {o : MuxStream} {caller : ℕ} {f : Frame} :
      b = .writeHeader 0 ∧ s.sendPc = .header (.openStream caller) r f ∨
        b = .writeBody 0 ∧ s.sendPc = .body (.openStream caller) r f →
      ObjStep s (.send b) r o o.closeCall.2
  | sendCall {r : Ref} {o : MuxStream} (p : Payload) : o.handed = true →
      ObjStep s (.app (.sendCall r p)) r o (o.sendCall s.tickets p.count).2
  | sendWake {r : Ref} {o o' : MuxStream} {i : ℕ} : o.handed = true →
      o.sendWake i = some o' → ObjStep s (.app (.sendWake r i)) r o o'
  | sendTimeout {r : Ref} {o o' : MuxStream} {i : ℕ} : o.handed = true →
      o.sendTimeout i = some o' → ObjStep s (.app (.sendTimeout r i)) r o o'
  | recvCall {r : Ref} {o : MuxStream} {count : ℕ} : o.handed = true →
      o.recvLock = false → ObjStep s (.app (.recvCall r count)) r o (o.recvCall count)
  | recvWake {r : Ref} {o o' : MuxStream} {i : ℕ} : o.handed = true →
      (o.recvLock = true → o.recvDone.head? ≠ some true) → o.recvWake i = some o' →
      ObjStep s (.app (.recvWake r i)) r o o'
  | closeCall {r : Ref} {o : MuxStream} :
      o.handed = true → o.owner = .idle ∨ o.owner = .returned → o.stateLock = false →
      ObjStep s (.app (.closeCall r)) r o o.closeCall.2
  | closeFin {r : Ref} {o : MuxStream} :
      o.handed = true → o.owner = .finSent → ObjStep s (.app (.closeFin r)) r o o.closeFin
  | closeWait {r : Ref} {o : MuxStream} :
      o.handed = true → o.owner = .waitWg →
      ObjStep s (.app (.closeWait r)) r o { o with owner := .dereg }
  | closeDereg {r : Ref} {o : MuxStream} :
      o.handed = true → o.owner = .dereg →
      ObjStep s (.app (.closeDereg r)) r o { o with owner := .returned }
  | setClose {r : Ref} {o : MuxStream} {rest : List Ref} : s.closePc = .closing rest →
      o.stateLock = false → ObjStep s (.close (.setClose r)) r o o.setClose

/-- The object a step can create: an accepted stream, or one that is being opened. -/
inductive NewObj (s : Session) : Action → MuxStream → Prop
  | accepted : s.recvPc = .decoded →
      s.streams s.hdr.streamId = none → NewObj s (.recv .dispatch)
        { id := s.hdr.streamId, state := .established }
  | opened {junk : UInt32} : s.sendPc = .idle →
      NewObj s (.send (.runTask junk)) { id := s.nextStreamId + 2, state := .synSent }

/-- What one step does to the heap of stream objects. -/
structure ObjsStep (s : Session) (a : Action) (s' : Session) : Prop where
  old : ∀ r o, s.objs[r]? = some o → ∃ o', s'.objs[r]? = some o' ∧ ObjStep s a r o o'
  new : ∀ r o', s.objs[r]? = none → s'.objs[r]? = some o' →
    r = s.objs.length ∧ NewObj s a o'

/-- The heap is left alone. -/
theorem ObjsStep.of_eq (h : s'.objs = s.objs) : ObjsStep s a s' where
  old r o ho := ⟨o, by rw [h, ho], .same⟩
  new r o' hn ho' := by
    rw [h, hn] at ho'
    exact absurd ho' (by simp)

/-- One object is changed. -/
theorem ObjsStep.of_modify {f : MuxStream → MuxStream} (h : s'.objs = s.objs.modify r f)
    (hf : ∀ o, s.objs[r]? = some o → ObjStep s a r o (f o)) : ObjsStep s a s' where
  old q o ho := by
    rw [h, List.getElem?_modify, ho]
    by_cases hq : r = q
    · subst hq
      exact ⟨f o, by simp, hf o ho⟩
    · exact ⟨o, by simp [hq], .same⟩
  new q o' hn ho' := by
    rw [h, List.getElem?_modify, hn] at ho'
    exact absurd ho' (by simp)

/-- One object, known to be there, is replaced. -/
theorem ObjsStep.of_replace (ho : s.objs[r]? = some o)
    (h : s'.objs = s.objs.modify r fun _ => o') (hstep : ObjStep s a r o o') :
    ObjsStep s a s' := by
  refine .of_modify h fun q hq => ?_
  rw [ho, Option.some.injEq] at hq
  exact hq ▸ hstep

/-- One object is created. -/
theorem ObjsStep.of_append {st : MuxStream} (h : s'.objs = s.objs ++ [st])
    (hst : NewObj s a st) : ObjsStep s a s' where
  old q o ho := by
    have hlt : q < s.objs.length := (List.getElem?_eq_some_iff.mp ho).1
    exact ⟨o, by rw [h, List.getElem?_append_left hlt, ho], .same⟩
  new q o' hn ho' := by
    have hge : s.objs.length ≤ q := List.getElem?_eq_none_iff.mp hn
    rw [h, List.getElem?_append_right hge] at ho'
    have hq : q - s.objs.length = 0 := by
      have := (List.getElem?_eq_some_iff.mp ho').1
      simpa using this
    rw [hq, List.getElem?_cons_zero, Option.some.injEq] at ho'
    exact ⟨by omega, ho' ▸ hst⟩

/-- The receive fiber and the stream objects. -/
theorem recvCase_objs {b : RecvAction} (h : RecvCase s b s') : ObjsStep s (.recv b) s' := by
  cases h with
  | accept hpc _ _ _ hnone => exact .of_append rfl (.accepted hpc hnone)
  | emplace hpc =>
      obtain ⟨m, he⟩ := s.acceptEmplace_frame _
      exact .of_modify (by rw [he]) fun o _ => .accepted hpc
  | update hpc ho hlock _ hinc => exact .of_replace ho rfl (.increase hpc hlock hinc)
  | checkErr hpc ho hlock _ hchk => exact .of_replace ho rfl (.check hpc hlock (.inl hchk))
  | check hpc ho hlock _ hchk =>
      exact .of_replace ho rfl (.check hpc hlock (.inr ⟨_, hchk⟩))
  | body hpc ho hlock hread hb =>
      exact .of_replace ho rfl (.body hpc hlock hread (.inl hb))
  | bodyErr hpc ho hlock hread hb =>
      exact .of_replace ho rfl (.body hpc hlock hread (.inr hb))
  | exit =>
      obtain ⟨d, pc, he⟩ := s.beginClose_frame
      exact .of_eq (by rw [he])
  | _ => exact .of_eq rfl

/-- The end of a task touches at most the object the task is about; `s₁` is the state
inside the step. -/
theorem endTask_objs {ok : Bool} (h₁ : s₁.objs = s.objs) (hx : s.Executing t r)
    (hopen : ∀ c, t = .openStream c → ok = false →
      ∃ f, b = .writeHeader 0 ∧ s.sendPc = .header t r f ∨
        b = .writeBody 0 ∧ s.sendPc = .body t r f) :
    ObjsStep s (.send b) (s₁.endTask t r ok) := by
  rw [endTask.eq_def]
  split
  · next c =>
      split
      · exact .of_eq h₁
      · next hok =>
          refine .of_modify (r := r) (f := fun o => o.closeCall.2)
            (by simp only [addSendTask, modObj, h₁]) fun o _ => ?_
          obtain ⟨f, hf⟩ := hopen c rfl (by simpa using hok)
          exact .destroy hf
  · exact .of_modify (by simp only [taskResult, modObj, h₁]) fun o _ => .taskEnd ok hx
  · exact .of_modify (by simp only [taskResult, modObj, h₁]) fun o _ => .finDone hx
  · exact .of_eq h₁

/-- The send fiber and the stream objects. -/
theorem sendCase_objs (h : SendCase s b s') : ObjsStep s (.send b) s' := by
  cases h with
  | stop | openGone | openRefused | dataGone | control | headerMore => exact .of_eq rfl
  | openStream hpc => exact .of_append rfl (.opened hpc)
  | @dataShut r ticket p ts junk o o' hpc hchan ho htask =>
      have hstep := ObjStep.task (b := .runTask junk) (o := o) hpc
        (by rw [hchan, List.head?_cons])
      rw [htask] at hstep
      exact .of_replace ho rfl hstep
  | @data r ticket p ts junk o o' _ hpc hchan ho htask =>
      have hstep := ObjStep.task (b := .runTask junk) (o := o) hpc
        (by rw [hchan, List.head?_cons])
      rw [htask] at hstep
      exact .of_replace ho rfl hstep
  | @dataDead r ticket p ts junk o o' _ hpc hchan ho htask =>
      have hstep := ObjStep.taskFail (b := .runTask junk) (o := o) hpc
        (by rw [hchan, List.head?_cons])
      rw [htask] at hstep
      exact .of_replace ho rfl hstep
  | controlDead hpc hchan hframe =>
      refine endTask_objs rfl (.inl ⟨hpc, by rw [hchan, List.head?_cons]⟩) fun c hc _ => ?_
      rw [hc, controlFrame] at hframe
      exact absurd hframe (by simp)
  | headerErr hpc =>
      exact endTask_objs rfl (.inr (.inl ⟨_, hpc⟩)) fun _ _ _ => ⟨_, .inl ⟨rfl, hpc⟩⟩
  | header hpc => exact endTask_objs rfl (.inr (.inl ⟨_, hpc⟩)) (by simp)
  | bodyErr hpc =>
      exact endTask_objs rfl (.inr (.inr ⟨_, hpc⟩)) fun _ _ _ => ⟨_, .inr ⟨rfl, hpc⟩⟩
  | body hpc => exact endTask_objs rfl (.inr (.inr ⟨_, hpc⟩)) (by simp)
  | emplace hpc =>
      obtain ⟨m, he⟩ := s.openEmplace_frame _ _
      exact .of_modify (by rw [he]) fun o _ => .opened hpc
  | exit =>
      obtain ⟨d, pc, he⟩ := s.beginClose_frame
      exact .of_eq (by rw [he])

/-- The application and the stream objects. -/
theorem appCase_objs {b : AppAction} (h : AppCase s b s') : ObjsStep s (.app b) s' := by
  cases h with
  | openCall =>
      obtain ⟨new, openers, n, he, -⟩ := s.openCall_frame
      exact .of_eq (by rw [he])
  | openTimeout | acceptStream => exact .of_eq rfl
  | sendCall ho hh =>
      obtain ⟨new, he, -⟩ := s.sendCall_frame _ _ _
      exact .of_replace ho (by rw [he]) (.sendCall _ hh)
  | sendWake ho hh hw => exact .of_replace ho rfl (.sendWake hh hw)
  | sendTimeout ho hh hw => exact .of_replace ho rfl (.sendTimeout hh hw)
  | recvCall ho hh hlock => exact .of_replace ho rfl (.recvCall hh hlock)
  | recvWake ho hh hlock hw => exact .of_replace ho rfl (.recvWake hh hlock hw)
  | closeCall ho hh howner hlock =>
      obtain ⟨new, he, -⟩ := s.closeCall_frame _ _
      exact .of_replace ho (by rw [he]) (.closeCall hh howner hlock)
  | closeFin ho hh howner => exact .of_replace ho rfl (.closeFin hh howner)
  | closeWait ho hh howner =>
      refine .of_modify rfl fun o ho' => ?_
      rw [ho, Option.some.injEq] at ho'
      exact .closeWait (ho' ▸ hh) (ho' ▸ howner)
  | closeDereg ho hh howner =>
      refine .of_modify rfl fun o ho' => ?_
      rw [ho, Option.some.injEq] at ho'
      exact .closeDereg (ho' ▸ hh) (ho' ▸ howner)

/-- **The stream objects in one step of the session.** -/
theorem step_objs (h : s.step a = some s') : ObjsStep s a s' := by
  cases step_cases h with
  | recv h => exact recvCase_objs h
  | send h => exact sendCase_objs h
  | app h => exact appCase_objs h
  | keep h =>
      cases h with
      | ping | pong | timeout | stop => exact .of_eq rfl
      | exit =>
      obtain ⟨d, pc, he⟩ := s.beginClose_frame
      exact .of_eq (by rw [he])
  | close h =>
      cases h with
      | call =>
          obtain ⟨d, pc, he⟩ := s.beginClose_frame
          exact .of_eq (by rw [he])
      | lock | socket | finish => exact .of_eq rfl
      | setClose hpc ho hr hlock => exact .of_replace ho rfl (.setClose hpc hlock)

/-- **Properties of all stream objects**, before and after a step: shown of what one step
makes of an object and of the object it creates. -/
theorem forall_objs_of_step {P Q : Ref → MuxStream → Prop} (h : s.step a = some s')
    (hold : ∀ r o o', s.objs[r]? = some o → ObjStep s a r o o' → P r o → Q r o')
    (hnew : ∀ o, NewObj s a o → Q s.objs.length o)
    (hP : ∀ r o, s.objs[r]? = some o → P r o) : ∀ r o, s'.objs[r]? = some o → Q r o := by
  intro r o' ho'
  cases ho : s.objs[r]? with
  | some o =>
      obtain ⟨o₁, ho₁, hstep⟩ := (step_objs h).old r o ho
      obtain rfl : o' = o₁ := Option.some.inj (ho'.symm.trans ho₁)
      exact hold r o o' ho hstep (hP r o ho)
  | none =>
      obtain ⟨rfl, hnewobj⟩ := (step_objs h).new r o' ho ho'
      exact hnew o' hnewobj

/-! ### Fields of the stream objects -/

/-- A stream keeps its id. -/
theorem ObjStep.id_eq (h : ObjStep s a r o o') : o'.id = o.id := by
  cases h with
  | increase _ _ h =>
      obtain ⟨_, _, _, rfl⟩ := increaseSendWindow_frame h
      rfl
  | check _ _ h =>
      obtain ⟨_, rfl⟩ := readDataCheck_frame h
      rfl
  | body _ _ _ h =>
      obtain ⟨_, _, _, _, _, _, rfl⟩ := readDataBody_frame h
      rfl
  | task => obtain ⟨_, _, h⟩ := sendTask_frame _ _ _; rw [h]
  | taskFail =>
      obtain ⟨_, _, h⟩ := sendTask_frame _ _ _
      rw [sendTaskDone, h]
  | destroy | closeCall => obtain ⟨_, _, _, _, _, h⟩ := MuxStream.closeCall_frame _; rw [h]
  | sendCall => obtain ⟨_, _, h⟩ := MuxStream.sendCall_frame _ _ _; rw [h]
  | sendWake _ h => obtain ⟨_, _, _, rfl⟩ := sendWake_frame h; rfl
  | sendTimeout _ h => obtain ⟨_, _, rfl⟩ := sendTimeout_frame h; rfl
  | recvCall => obtain ⟨_, _, _, h⟩ := recvCall_frame _ _; rw [h]
  | recvWake _ _ h => obtain ⟨_, _, _, _, rfl⟩ := recvWake_frame h; rfl
  | _ => rfl

/-- What `read_data` alone changes of a stream: its window, the bytes it received and the
lock of its buffer. While that lock is held the buffer does not change either. -/
structure ReadFrame (o o' : MuxStream) : Prop where
  recvWindow : o'.recvWindow = o.recvWindow
  appended : o'.appended = o.appended
  recvLock : o'.recvLock = o.recvLock
  recvBuff : o.recvLock = true → o'.recvBuff = o.recvBuff

/-- A null token leaves the buffer as it is. -/
theorem recvWake_locked {i : ℕ} (hhead : o.recvDone.head? ≠ some true)
    (h : o.recvWake i = some o') : o'.recvBuff = o.recvBuff := by
  rw [recvWake.eq_def] at h
  split at h
  · rw [← Option.some.inj h]
  · next hdone => exact absurd (by rw [hdone]; rfl) hhead
  · exact absurd h (by simp)

theorem ObjStep.readFrame (h : ObjStep s a r o o') (ha : a ≠ .recv .readBody) :
    ReadFrame o o' := by
  cases h with
  | increase _ _ h =>
      obtain ⟨_, _, _, rfl⟩ := increaseSendWindow_frame h
      exact ⟨rfl, rfl, rfl, fun _ => rfl⟩
  | check _ _ h =>
      obtain ⟨_, rfl⟩ := readDataCheck_frame h
      exact ⟨rfl, rfl, rfl, fun _ => rfl⟩
  | body => exact absurd rfl ha
  | task =>
      obtain ⟨_, _, h⟩ := sendTask_frame _ _ _
      rw [h]
      exact ⟨rfl, rfl, rfl, fun _ => rfl⟩
  | taskFail =>
      obtain ⟨_, _, h⟩ := sendTask_frame _ _ _
      rw [sendTaskDone, h]
      exact ⟨rfl, rfl, rfl, fun _ => rfl⟩
  | destroy | closeCall =>
      obtain ⟨_, _, _, _, _, h⟩ := MuxStream.closeCall_frame _
      rw [h]
      exact ⟨rfl, rfl, rfl, fun _ => rfl⟩
  | sendCall =>
      obtain ⟨_, _, h⟩ := MuxStream.sendCall_frame _ _ _
      rw [h]
      exact ⟨rfl, rfl, rfl, fun _ => rfl⟩
  | sendWake _ h =>
      obtain ⟨_, _, _, rfl⟩ := sendWake_frame h
      exact ⟨rfl, rfl, rfl, fun _ => rfl⟩
  | sendTimeout _ h =>
      obtain ⟨_, _, rfl⟩ := sendTimeout_frame h
      exact ⟨rfl, rfl, rfl, fun _ => rfl⟩
  | recvCall _ hlock =>
      obtain ⟨_, _, _, h⟩ := recvCall_frame _ _
      rw [h]
      exact ⟨rfl, rfl, rfl, by simp [hlock]⟩
  | recvWake _ hlock h =>
      have hbuff := fun hl => recvWake_locked (hlock hl) h
      obtain ⟨_, _, _, _, rfl⟩ := recvWake_frame h
      exact ⟨rfl, rfl, rfl, hbuff⟩
  | _ => exact ⟨rfl, rfl, rfl, fun _ => rfl⟩

/-! ### The registry -/

/-- What one step can do to the registry: nothing, one of the two `emplace`s, or the
`erase` of a `close()` — each with `mux_streams_.mutex` free. -/
inductive StreamsStep (s : Session) : Action → (UInt32 → Option Ref) → Prop
  | same {a : Action} : StreamsStep s a s.streams
  | accepted {r : Ref} : s.recvPc = .emplace r → s.muxLocked = false →
      StreamsStep s (.recv .emplace) (s.emplaceStream s.hdr.streamId r).streams
  | opened {r : Ref} {caller : ℕ} : s.sendPc = .emplace r caller → s.muxLocked = false →
      StreamsStep s (.send .emplace) (s.emplaceStream (s.objId r) r).streams
  | erased {r : Ref} {o : MuxStream} : s.objs[r]? = some o → o.handed = true →
      o.owner = .dereg → s.muxLocked = false →
      StreamsStep s (.app (.closeDereg r)) (Function.update s.streams o.id none)

/-- Nothing is done to the registry. -/
theorem StreamsStep.of_eq {m : UInt32 → Option Ref} (h : m = s.streams) :
    StreamsStep s a m := h ▸ .same

/-- **The registry in one step of the session.** -/
theorem step_streams (h : s.step a = some s') : StreamsStep s a s'.streams := by
  cases step_cases h with
  | recv h =>
      cases h with
      | emplace hpc hmux => exact .accepted hpc hmux
      | exit =>
          obtain ⟨d, pc, he⟩ := s.beginClose_frame
          exact .of_eq (by rw [he])
      | _ => exact .same
  | send h =>
      cases h with
      | emplace hpc hmux => exact .opened hpc hmux
      | controlDead | headerErr | header | bodyErr | body =>
          obtain ⟨_, _, _, _, he, -⟩ := endTask_frame _ _ _ _
          exact .of_eq (by rw [he])
      | exit =>
          obtain ⟨d, pc, he⟩ := s.beginClose_frame
          exact .of_eq (by rw [he])
      | _ => exact .same
  | app h =>
      cases h with
      | openCall =>
          obtain ⟨new, openers, n, he, -⟩ := s.openCall_frame
          exact .of_eq (by rw [he])
      | sendCall =>
          obtain ⟨new, he, -⟩ := s.sendCall_frame _ _ _
          exact .of_eq (by rw [he])
      | closeCall =>
          obtain ⟨new, he, -⟩ := s.closeCall_frame _ _
          exact .of_eq (by rw [he])
      | closeDereg ho hh howner hmux => exact .erased ho hh howner hmux
      | _ => exact .same
  | keep h =>
      cases h with
      | exit =>
          obtain ⟨d, pc, he⟩ := s.beginClose_frame
          exact .of_eq (by rw [he])
      | _ => exact .same
  | close h =>
      cases h with
      | call =>
          obtain ⟨d, pc, he⟩ := s.beginClose_frame
          exact .of_eq (by rw [he])
      | _ => exact .same

/-! ### The queue -/

/-- Which action queues which task, with the states before and after the action. -/
inductive Queued (s : Session) : Action → Session → Task → Prop
  | pingAck {s' : Session} : s.recvPc = .decoded → s'.recvPc = .top → s'.hdr = s.hdr →
      Queued s (.recv .dispatch) s' (.pingAck s.hdr.length)
  | rst {s' : Session} : s.recvPc = .decoded → s.localGoaway = true →
      Queued s (.recv .dispatch) s' (.rst s.hdr.streamId)
  | goAway {b : RecvAction} {s' : Session} : s'.recvPc = .failed .handler →
      Queued s (.recv b) s' goAwayTask
  | destroy {b : SendAction} {s' : Session} {r : Ref} : Queued s (.send b) s' (.fin r flagFIN)
  | openStream {s' : Session} : Queued s (.app .openCall) s' (.openStream s.tickets)
  | data {s' : Session} {r : Ref} {p : Payload} :
      Queued s (.app (.sendCall r p)) s' (.data r s.tickets p)
  | fin {s' : Session} {r : Ref} {flags : UInt16} :
      Queued s (.app (.closeCall r)) s' (.fin r flags)
  | ping {s' : Session} : Queued s (.keep .ping) s' (.ping s.pingId)
  | stop {s' : Session} : Queued s (.close .socket) s' .stop

/-- The queue before anything is appended to it: the send fiber takes the first task. -/
def remaining (s : Session) : Action → List Task
  | .send (.runTask _) => s.sendChan.tail
  | _ => s.sendChan

/-- What one step does to the queue. -/
def ChanStep (s : Session) (a : Action) (s' : Session) : Prop :=
  s'.sendChan = s.remaining a ∨ ∃ t, Queued s a s' t ∧ s'.sendChan = s.remaining a ++ [t]

/-- At most one task is appended. -/
theorem ChanStep.of_new {new : List Task} (h : s'.sendChan = s.remaining a ++ new)
    (hnew : new = [] ∨ ∃ t, Queued s a s' t ∧ new = [t]) : ChanStep s a s' := by
  obtain rfl | ⟨t, hq, rfl⟩ := hnew
  · exact .inl (by rw [h, List.append_nil])
  · exact .inr ⟨t, hq, h⟩

/-- The end of a task and the queue. -/
theorem endTask_chan {ok : Bool} (h₁ : s₁.sendChan = s.remaining (.send b)) :
    ChanStep s (.send b) (s₁.endTask t r ok) := by
  obtain ⟨_, new, _, _, he, -, -, hnew⟩ := s₁.endTask_frame t r ok
  exact .of_new (by rw [he, h₁]) (hnew.imp_right fun hnew => ⟨_, .destroy, hnew⟩)

/-- **The queue in one step of the session**: the first task is taken by the send fiber, and
at most one task is appended. -/
theorem step_sendChan (h : s.step a = some s') : ChanStep s a s' := by
  cases step_cases h with
  | recv h =>
      cases h with
      | pingSyn hpc => exact .inr ⟨_, .pingAck hpc rfl rfl, rfl⟩
      | refused hpc _ _ _ hlocal => exact .inr ⟨_, .rst hpc hlocal, rfl⟩
      | sameId | updateErr | checkErr | bodyErr => exact .inr ⟨_, .goAway rfl, rfl⟩
      | emplace =>
          obtain ⟨m, he⟩ := s.acceptEmplace_frame _
          exact .inl (by rw [he]; rfl)
      | exit =>
          obtain ⟨d, pc, he⟩ := s.beginClose_frame
          exact .inl (by rw [he]; rfl)
      | _ => exact .inl rfl
  | send h =>
      cases h with
      | controlDead _ hchan => exact endTask_chan (by rw [remaining, hchan]; rfl)
      | headerErr | header | bodyErr | body => exact endTask_chan rfl
      | headerMore => exact .inl rfl
      | emplace =>
          obtain ⟨m, he⟩ := s.openEmplace_frame _ _
          exact .inl (by rw [he]; rfl)
      | exit =>
          obtain ⟨d, pc, he⟩ := s.beginClose_frame
          exact .inl (by rw [he]; rfl)
      | stop _ hchan | openGone _ hchan | openRefused _ hchan | openStream _ hchan
      | dataGone _ hchan | dataShut _ hchan | data _ hchan | dataDead _ hchan
      | control _ hchan => exact .inl (by rw [remaining, hchan]; rfl)
  | app h =>
      cases h with
      | openCall =>
          obtain ⟨new, openers, n, he, hnew⟩ := s.openCall_frame
          exact .of_new (by rw [he]; rfl) (hnew.imp_right fun hnew => ⟨_, .openStream, hnew⟩)
      | sendCall =>
          obtain ⟨new, he, hnew⟩ := s.sendCall_frame _ _ _
          exact .of_new (by rw [he]; rfl) (hnew.imp_right fun hnew => ⟨_, .data, hnew⟩)
      | closeCall =>
          obtain ⟨new, he, hnew⟩ := s.closeCall_frame _ _
          exact .of_new (by rw [he]; rfl) (hnew.imp_right fun ⟨_, hnew⟩ => ⟨_, .fin, hnew⟩)
      | _ => exact .inl rfl
  | keep h =>
      cases h with
      | ping => exact .inr ⟨_, .ping, rfl⟩
      | exit =>
          obtain ⟨d, pc, he⟩ := s.beginClose_frame
          exact .inl (by rw [he]; rfl)
      | _ => exact .inl rfl
  | close h =>
      cases h with
      | socket => exact .inr ⟨_, .stop, rfl⟩
      | call =>
          obtain ⟨d, pc, he⟩ := s.beginClose_frame
          exact .inl (by rw [he]; rfl)
      | _ => exact .inl rfl

/-- A queued task was there before, or is queued by this step. -/
theorem mem_sendChan_of_step (h : s.step a = some s') (ht : t ∈ s'.sendChan) :
    t ∈ s.sendChan ∨ Queued s a s' t := by
  have hrem : ∀ t ∈ s.remaining a, t ∈ s.sendChan := by
    intro t ht
    rw [remaining.eq_def] at ht
    split at ht
    · exact List.mem_of_mem_tail ht
    · exact ht
  obtain he | ⟨t', hq, he⟩ := step_sendChan h
  · exact .inl (hrem t (he ▸ ht))
  · rw [he, List.mem_append, List.mem_singleton] at ht
    obtain ht | rfl := ht
    · exact .inl (hrem t ht)
    · exact .inr hq

/-- `local_goaway_` is set by a queued go-away task only. -/
theorem localGoaway_of_step (h : s.step a = some s') (hg : s'.localGoaway = true) :
    s.localGoaway = true ∨ ∃ reason, .goAway reason ∈ s.sendChan := by
  cases step_cases h with
  | recv h =>
      cases h with
      | emplace =>
          obtain ⟨m, he⟩ := s.acceptEmplace_frame _
          exact .inl (by rw [he] at hg; exact hg)
      | exit =>
          obtain ⟨d, pc, he⟩ := s.beginClose_frame
          exact .inl (by rw [he] at hg; exact hg)
      | _ => exact .inl hg
  | send h =>
      cases h with
      | headerErr | header | bodyErr | body =>
          obtain ⟨_, _, _, _, he, -⟩ := endTask_frame _ _ _ _
          exact .inl (by rw [he] at hg; exact hg)
      | controlDead _ hchan _ _ hset =>
          obtain ⟨_, _, _, _, he, -⟩ := endTask_frame _ _ _ _
          rw [he] at hg
          obtain heq | ⟨reason, rfl⟩ := hset
          · exact .inl (heq ▸ hg)
          · exact .inr ⟨reason, by simp [hchan]⟩
      | control _ hchan _ _ hset =>
          obtain heq | ⟨reason, rfl⟩ := hset
          · exact .inl (heq ▸ hg)
          · exact .inr ⟨reason, by simp [hchan]⟩
      | emplace =>
          obtain ⟨m, he⟩ := s.openEmplace_frame _ _
          exact .inl (by rw [he] at hg; exact hg)
      | exit =>
          obtain ⟨d, pc, he⟩ := s.beginClose_frame
          exact .inl (by rw [he] at hg; exact hg)
      | _ => exact .inl hg
  | app h =>
      cases h with
      | openCall =>
          obtain ⟨new, openers, n, he, -⟩ := s.openCall_frame
          exact .inl (by rw [he] at hg; exact hg)
      | sendCall =>
          obtain ⟨new, he, -⟩ := s.sendCall_frame _ _ _
          exact .inl (by rw [he] at hg; exact hg)
      | closeCall =>
          obtain ⟨new, he, -⟩ := s.closeCall_frame _ _
          exact .inl (by rw [he] at hg; exact hg)
      | _ => exact .inl hg
  | keep h =>
      cases h with
      | exit =>
          obtain ⟨d, pc, he⟩ := s.beginClose_frame
          exact .inl (by rw [he] at hg; exact hg)
      | _ => exact .inl hg
  | close h =>
      cases h with
      | call =>
          obtain ⟨d, pc, he⟩ := s.beginClose_frame
          exact .inl (by rw [he] at hg; exact hg)
      | _ => exact .inl hg

/-! ### Frames -/

/-- What only the receive fiber changes. -/
structure RecvFrame (s s' : Session) : Prop where
  recvPc : s'.recvPc = s.recvPc
  hdr : s'.hdr = s.hdr
  handled : s'.handled = s.handled
  aborted : s'.aborted = s.aborted
  source : (s'.source = s.source ∧ (s'.sockClosed = true → s.sockClosed = true)) ∨
    (s'.sockClosed = true ∧ s'.source.bytes = [])

/-- What only the writers of the socket change. -/
structure SendFrame (s s' : Session) : Prop where
  sendPc : s'.sendPc = s.sendPc
  out : s'.out = s.out
  started : s'.started = s.started

theorem beginClose_recvFrame : RecvFrame s s.beginClose := by
  rw [beginClose]
  split
  · exact ⟨rfl, rfl, rfl, rfl, .inl ⟨rfl, id⟩⟩
  · exact ⟨rfl, rfl, rfl, rfl, .inl ⟨rfl, by simp [sockClosed]⟩⟩

/-- **The other fibers leave the receive fiber alone**, but for the closing of its
socket. -/
theorem step_recvFrame (h : s.step a = some s') (ha : ∀ b, a ≠ .recv b) :
    RecvFrame s s' := by
  cases step_cases h with
  | recv => exact absurd rfl (ha _)
  | send h =>
      cases h with
      | controlDead | headerErr | header | bodyErr | body =>
          obtain ⟨_, _, _, _, he, -⟩ := endTask_frame _ _ _ _
          rw [he]
          exact ⟨rfl, rfl, rfl, rfl, .inl ⟨rfl, id⟩⟩
      | emplace =>
          obtain ⟨m, he⟩ := s.openEmplace_frame _ _
          rw [he]
          exact ⟨rfl, rfl, rfl, rfl, .inl ⟨rfl, id⟩⟩
      | exit =>
          have hf := beginClose_recvFrame (s := s)
          exact ⟨hf.recvPc, hf.hdr, hf.handled, hf.aborted, hf.source⟩
      | _ => exact ⟨rfl, rfl, rfl, rfl, .inl ⟨rfl, id⟩⟩
  | app h =>
      cases h with
      | openCall =>
          obtain ⟨new, openers, n, he, -⟩ := s.openCall_frame
          rw [he]
          exact ⟨rfl, rfl, rfl, rfl, .inl ⟨rfl, id⟩⟩
      | sendCall =>
          obtain ⟨new, he, -⟩ := s.sendCall_frame _ _ _
          rw [he]
          exact ⟨rfl, rfl, rfl, rfl, .inl ⟨rfl, id⟩⟩
      | closeCall =>
          obtain ⟨new, he, -⟩ := s.closeCall_frame _ _
          rw [he]
          exact ⟨rfl, rfl, rfl, rfl, .inl ⟨rfl, id⟩⟩
      | _ => exact ⟨rfl, rfl, rfl, rfl, .inl ⟨rfl, id⟩⟩
  | keep h =>
      cases h with
      | exit =>
          have hf := beginClose_recvFrame (s := s)
          exact ⟨hf.recvPc, hf.hdr, hf.handled, hf.aborted, hf.source⟩
      | _ => exact ⟨rfl, rfl, rfl, rfl, .inl ⟨rfl, id⟩⟩
  | close h =>
      cases h with
      | call => exact beginClose_recvFrame
      | socket => exact ⟨rfl, rfl, rfl, rfl, .inr ⟨rfl, rfl⟩⟩
      | finish hpc => exact ⟨rfl, rfl, rfl, rfl, .inl ⟨rfl, by simp [sockClosed, hpc]⟩⟩
      | _ => exact ⟨rfl, rfl, rfl, rfl, .inl ⟨rfl, by simp [sockClosed]⟩⟩

theorem beginClose_sendFrame : SendFrame s s.beginClose := by
  obtain ⟨d, pc, he⟩ := s.beginClose_frame
  rw [he]
  exact ⟨rfl, rfl, rfl⟩

/-- **Only the send fiber and the ACK of `incoming_stream` write to the socket.** -/
theorem step_sendFrame (h : s.step a = some s') (ha : ∀ b, a ≠ .send b)
    (hack : ∀ n, a ≠ .recv (.ackWrite n)) : SendFrame s s' := by
  cases step_cases h with
  | recv h =>
      cases h with
      | ackErr | ackWrite => exact absurd rfl (hack _)
      | emplace =>
          obtain ⟨m, he⟩ := s.acceptEmplace_frame _
          rw [he]
          exact ⟨rfl, rfl, rfl⟩
      | exit =>
          have hf := beginClose_sendFrame (s := s)
          exact ⟨hf.sendPc, hf.out, hf.started⟩
      | _ => exact ⟨rfl, rfl, rfl⟩
  | send => exact absurd rfl (ha _)
  | app h =>
      cases h with
      | openCall =>
          obtain ⟨new, openers, n, he, -⟩ := s.openCall_frame
          rw [he]
          exact ⟨rfl, rfl, rfl⟩
      | sendCall =>
          obtain ⟨new, he, -⟩ := s.sendCall_frame _ _ _
          rw [he]
          exact ⟨rfl, rfl, rfl⟩
      | closeCall =>
          obtain ⟨new, he, -⟩ := s.closeCall_frame _ _
          rw [he]
          exact ⟨rfl, rfl, rfl⟩
      | _ => exact ⟨rfl, rfl, rfl⟩
  | keep h =>
      cases h with
      | exit =>
          have hf := beginClose_sendFrame (s := s)
          exact ⟨hf.sendPc, hf.out, hf.started⟩
      | _ => exact ⟨rfl, rfl, rfl⟩
  | close h =>
      cases h with
      | call => exact beginClose_sendFrame
      | _ => exact ⟨rfl, rfl, rfl⟩

/-! ### What has been written and handled -/

/-- A frame that is started: the ACK of `incoming_stream`, or the frame of a task. -/
inductive StartStep (s : Session) : Action → Option Task → Frame → Prop
  | ack {n : ℕ} {r : Ref} {f : Frame} : s.recvPc = .ack r f →
      StartStep s (.recv (.ackWrite n)) none f
  | task {n : ℕ} {t : Task} {r : Ref} {f : Frame} : n ≠ 0 → s.sendPc = .header t r f →
      StartStep s (.send (.writeHeader n)) (some t) f

/-- **The frames on the wire in one step of the session**: at most one is started. -/
theorem step_started (h : s.step a = some s') :
    s'.started = s.started ∨
      ∃ x f, StartStep s a x f ∧ s'.started = s.started ++ [(x, f)] := by
  by_cases hsend : ∃ b, a = .send b
  · obtain ⟨b, rfl⟩ := hsend
    cases step_cases h with
    | send hc =>
      cases hc with
      | headerErr | bodyErr | body | controlDead =>
          obtain ⟨_, _, _, _, he, -⟩ := endTask_frame _ _ _ _
          exact .inl (by rw [he])
      | @header t r f n hpc hopen hpos =>
          obtain ⟨_, _, _, _, he, -⟩ := endTask_frame _ _ _ _
          exact .inr ⟨_, _, .task (by omega) hpc, by rw [he]⟩
      | headerMore hpc hopen hpos => exact .inr ⟨_, _, .task (by omega) hpc, rfl⟩
      | emplace =>
          obtain ⟨m, he⟩ := s.openEmplace_frame _ _
          exact .inl (by rw [he])
      | exit => exact .inl beginClose_sendFrame.started
      | _ => exact .inl rfl
  · by_cases hack : ∃ n, a = .recv (.ackWrite n)
    · obtain ⟨n, rfl⟩ := hack
      cases step_cases h with
      | recv hc =>
        cases hc with
        | ackErr => exact .inl rfl
        | ackWrite hpc => exact .inr ⟨_, _, .ack hpc, rfl⟩
    · exact .inl (step_sendFrame h (fun b hb => hsend ⟨b, hb⟩)
        fun n hn => hack ⟨n, hn⟩).started

/-- **The frames handled in one step of the session**: at most one, with the stream the
registry names for its id. -/
theorem step_handled (h : s.step a = some s') :
    s'.handled = s.handled ∨
      s'.handled = s.handled ++ [(s.hdr, s.streams s.hdr.streamId)] := by
  by_cases hrecv : ∃ b, a = .recv b
  · obtain ⟨b, rfl⟩ := hrecv
    cases step_cases h with
    | recv hc =>
      cases hc with
      | pingSyn | pong | goAway | unknown | update | body | discard => exact .inr rfl
      | emplace =>
          obtain ⟨m, he⟩ := s.acceptEmplace_frame _
          exact .inl (by rw [he])
      | exit => exact .inl beginClose_recvFrame.handled
      | _ => exact .inl rfl
  · exact .inl (step_recvFrame h fun b hb => hrecv ⟨b, hb⟩).handled

/-- **A frame about to be sent** was about to be sent before, or is the frame of the task
that the send fiber takes from the queue of an open session. -/
theorem header_of_step {t : Task} {f : Frame} (h : s.step a = some s')
    (hpc : s'.sendPc = .header t r f) :
    s.sendPc = .header t r f ∨
      (s.shutDown = false ∧ t ∈ s.sendChan ∧
        ∃ junk, ∀ q hdr, s.controlFrame junk t = some (q, hdr) → f = ⟨hdr, none⟩) := by
  by_cases hsend : ∃ b, a = .send b
  · obtain ⟨b, rfl⟩ := hsend
    cases step_cases h with
    | send hc =>
      cases hc with
      | controlDead | headerErr | header | bodyErr | body =>
          obtain ⟨_, _, _, _, he, hno, -⟩ := endTask_frame _ _ _ _
          exact absurd (by rw [← hpc, he]) (hno t r f)
      | openStream _ hchan _ hd =>
          obtain ⟨rfl, -, -⟩ := SendPc.header.inj hpc
          exact .inr ⟨hd, by simp [hchan], 0, by simp [controlFrame]⟩
      | data _ hchan _ _ hd =>
          obtain ⟨rfl, -, -⟩ := SendPc.header.inj hpc
          exact .inr ⟨hd, by simp [hchan], 0, by simp [controlFrame]⟩
      | @control _ _ junk _ _ _ _ hchan hframe hd =>
          obtain ⟨rfl, rfl, rfl⟩ := SendPc.header.inj hpc
          refine .inr ⟨hd, by simp [hchan], junk, fun q hdr heq => ?_⟩
          rw [hframe, Option.some.injEq, Prod.mk.injEq] at heq
          rw [heq.2]
      | dataGone | dataShut => exact .inl hpc
      | _ => exact absurd hpc (by simp [openEmplace])
  · by_cases hack : ∃ n, a = .recv (.ackWrite n)
    · obtain ⟨n, rfl⟩ := hack
      cases step_cases h with
      | recv hc => cases hc <;> exact .inl hpc
    · refine .inl ?_
      rw [← (step_sendFrame h (fun b hb => hsend ⟨b, hb⟩) fun n hn => hack ⟨n, hn⟩).sendPc]
      exact hpc

/-! ### The places of the receive fiber -/

/-- A handler has returned `-1`. -/
def handlerFailed : RecvPc → Bool
  | .failed .handler | .done .handler => true
  | _ => false

/-- `recv_loop` has not returned. -/
def inLoop : RecvPc → Bool
  | .failed _ | .done _ => false
  | _ => true

/-- A failed handler ends the loop. -/
theorem handlerFailed_of_step (h : s.step a = some s') (hf : handlerFailed s.recvPc = true) :
    handlerFailed s'.recvPc = true := by
  by_cases hrecv : ∃ b, a = .recv b
  · obtain ⟨b, rfl⟩ := hrecv
    cases step_cases h with
    | recv hc =>
      cases hc with
      | @exit why hpc => cases why <;> simp_all [handlerFailed]
      | _ => simp_all [handlerFailed]
  · rw [(step_recvFrame h fun b hb => hrecv ⟨b, hb⟩).recvPc]
    exact hf

/-! ### The end of the session -/

/-- What one step does to `shut_down_` and to the progress of `close()`: nothing, the first
statements of `close()`, or one of its later steps. -/
inductive CloseStep (s s' : Session) : Prop
  | same : s'.shutDown = s.shutDown → s'.closePc = s.closePc → CloseStep s s'
  | begun : s.shutDown = false → s'.shutDown = true → s'.closePc = .begun → CloseStep s s'
  | later : s'.shutDown = s.shutDown → s.closePc ≠ .open → s'.closePc ≠ .open →
      (s.sockClosed = true → s'.sockClosed = true) → CloseStep s s'

theorem beginClose_close (h : s'.shutDown = s.beginClose.shutDown)
    (hpc : s'.closePc = s.beginClose.closePc) : CloseStep s s' := by
  cases hd : s.shutDown with
  | true =>
      simp only [beginClose, hd, if_true] at h hpc
      exact .same (h.trans hd.symm) hpc
  | false =>
      simp only [beginClose, hd, Bool.false_eq_true, if_false] at h hpc
      exact .begun hd h hpc

/-- **The end of the session, in one step.** -/
theorem step_close (h : s.step a = some s') : CloseStep s s' := by
  cases step_cases h with
  | recv h =>
      cases h with
      | emplace =>
          obtain ⟨m, he⟩ := s.acceptEmplace_frame _
          rw [he]
          exact .same rfl rfl
      | exit => exact beginClose_close rfl rfl
      | _ => exact .same rfl rfl
  | send h =>
      cases h with
      | controlDead | headerErr | header | bodyErr | body =>
          obtain ⟨_, _, _, _, he, -⟩ := endTask_frame _ _ _ _
          rw [he]
          exact .same rfl rfl
      | emplace =>
          obtain ⟨m, he⟩ := s.openEmplace_frame _ _
          rw [he]
          exact .same rfl rfl
      | exit => exact beginClose_close rfl rfl
      | _ => exact .same rfl rfl
  | app h =>
      cases h with
      | openCall =>
          obtain ⟨new, openers, n, he, -⟩ := s.openCall_frame
          rw [he]
          exact .same rfl rfl
      | sendCall =>
          obtain ⟨new, he, -⟩ := s.sendCall_frame _ _ _
          rw [he]
          exact .same rfl rfl
      | closeCall =>
          obtain ⟨new, he, -⟩ := s.closeCall_frame _ _
          rw [he]
          exact .same rfl rfl
      | _ => exact .same rfl rfl
  | keep h =>
      cases h with
      | exit => exact beginClose_close rfl rfl
      | _ => exact .same rfl rfl
  | close h =>
      cases h with
      | call => exact beginClose_close rfl rfl
      | lock hpc => exact .later rfl (by simp [hpc]) (by simp) (by simp [sockClosed, hpc])
      | setClose hpc =>
          exact .later rfl (by simp [hpc]) (by simp) (by simp [sockClosed, hpc])
      | socket hpc => exact .later rfl (by simp [hpc]) (by simp) fun _ => rfl
      | finish hpc => exact .later rfl (by simp [hpc]) (by simp) fun _ => rfl

/-- `shut_down_` is never reset. -/
theorem shutDown_of_step (h : s.step a = some s') (hd : s.shutDown = true) :
    s'.shutDown = true := by
  cases step_close h with
  | same hd' => rw [hd', hd]
  | begun _ hd' => exact hd'
  | later hd' => rw [hd', hd]

/-- `close()` is under way only after `shut_down_` has been set. -/
def CloseOk (s : Session) : Prop := s.closePc ≠ .open → s.shutDown = true

theorem closeOk_of_step (hok : CloseOk s) (h : s.step a = some s') : CloseOk s' := by
  intro hpc
  cases step_close h with
  | same hd hpc' => rw [hd]; exact hok (hpc' ▸ hpc)
  | begun _ hd => exact hd
  | later hd hpc' => rw [hd]; exact hok hpc'

/-- The socket of an open session is open. -/
theorem CloseOk.sockOpen (hok : CloseOk s) (hd : s.shutDown = false) :
    s.sockClosed = false := by
  cases hc : s.sockClosed with
  | false => rfl
  | true =>
      have hpc : s.closePc ≠ .open := fun hpc => by simp [sockClosed, hpc] at hc
      exact absurd (hok hpc) (by simp [hd])

/-- A socket that has been closed stays closed. -/
theorem sockClosed_of_step (hok : CloseOk s) (h : s.step a = some s')
    (hc : s.sockClosed = true) : s'.sockClosed = true := by
  cases step_close h with
  | same _ hpc => simpa only [sockClosed, hpc] using hc
  | begun hd => exact absurd hc (by simp [hok.sockOpen hd])
  | later _ _ _ hmono => exact hmono hc

/-- A socket that is open was open before. -/
theorem sockOpen_of_step (hok : CloseOk s) (h : s.step a = some s')
    (hopen : s'.sockClosed = false) : s.sockClosed = false := by
  cases hc : s.sockClosed with
  | false => rfl
  | true => rw [← sockClosed_of_step hok h hc, hopen]

end ArchNet.Session

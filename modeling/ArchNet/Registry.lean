import ArchNet.MuxFrames

/-!
# The Registry of Streams

`mux_streams_.streams` maps ids to stream objects. This module follows an object from the
moment it is made, while `incoming_stream` or the task of `open_stream` sets it up
(`accepting`, `opening`), through its registration, to the end of its owner's `close()`.

* `RegInv` — what holds of the registry in every run: an entry names an object with that id,
  an object being set up is nobody's yet, and what the receive fiber looked up stays valid
  while it holds the mutex.
* `closeNotReset` — the condition under which `close()` always deregisters: it is not called
  on a stream that the peer has reset.

## Main results

* `regInv_of_reach`: the registry invariant holds in every reachable state.
* `registered_not_returned`: **no entry outlives its stream's `close()`**, in every run of a
  live session whose `close()` calls meet the condition.
* `reset_close_keeps_entry`: `close()` on a reset stream returns and leaves its entry.
-/

namespace ArchNet.Session

open Lts MuxStream

variable {s s' : Session} {a : Action} {r : Ref} {o o' : MuxStream}

/-! ### Objects being set up -/

/-- The object that `incoming_stream` is setting up. -/
def accepting (s : Session) : Option Ref :=
  match s.recvPc with
  | .ack r _ | .emplace r => some r
  | _ => none

/-- The object that the task of `open_stream` is setting up. -/
def opening (s : Session) : Option Ref :=
  match s.sendPc with
  | .header (.openStream _) r _ | .body (.openStream _) r _ | .emplace r _ => some r
  | _ => none

/-- The stream that the receive fiber has looked up and holds the mutex for. -/
def lookedUp (s : Session) : Option Ref :=
  match s.recvPc with
  | .flags r | .body r _ => some r
  | _ => none

/-- An object that is set up: it exists, nobody has it, its `close()` has not begun, and no
entry names it. -/
structure Pending (s : Session) (r : Ref) : Prop where
  exist : ∃ o, s.objs[r]? = some o ∧ o.handed = false ∧ o.owner = .idle
  free : ∀ id, s.streams id ≠ some r

/-- What holds of the registry in every run. -/
structure RegInv (s : Session) : Prop where
  ids : ∀ id r, s.streams id = some r → ∃ o, s.objs[r]? = some o ∧ o.id = id
  accepting : ∀ r, s.accepting = some r → Pending s r ∧ s.objId r = s.hdr.streamId
  opening : ∀ r, s.opening = some r → Pending s r
  apart : ∀ r, s.accepting = some r → s.opening ≠ some r
  found : ∀ r, s.lookedUp = some r → s.streams s.hdr.streamId = some r
  discard : s.recvPc = .discard → s.streams s.hdr.streamId = none

/-- The id of an object that exists. -/
theorem objId_eq (ho : s.objs[r]? = some o) : s.objId r = o.id := by
  rw [objId, ho]; rfl

/-- An object stays, with its id. -/
theorem objId_of_step (h : s.step a = some s') (ho : s.objs[r]? = some o) :
    ∃ o', s'.objs[r]? = some o' ∧ o'.id = o.id := by
  obtain ⟨o', ho', hstep⟩ := (step_objs h).old r o ho
  exact ⟨o', ho', hstep.id_eq⟩

/-- Who has a stream changes only where it is registered. -/
theorem handed_of_objStep (h : ObjStep s a r o o') : o'.handed = o.handed ∨
    (a = .recv .emplace ∧ s.recvPc = .emplace r) ∨
    (a = .send .emplace ∧ ∃ c, s.sendPc = .emplace r c) := by
  cases h with
  | accepted hpc => exact .inr (.inl ⟨rfl, hpc⟩)
  | opened hpc => exact .inr (.inr ⟨rfl, _, hpc⟩)
  | increase _ _ h =>
      obtain ⟨_, _, _, rfl⟩ := increaseSendWindow_frame h
      exact .inl rfl
  | check _ _ h =>
      obtain ⟨_, rfl⟩ := readDataCheck_frame h
      exact .inl rfl
  | body _ _ _ h =>
      obtain ⟨_, _, _, _, _, _, rfl⟩ := readDataBody_frame h
      exact .inl rfl
  | task => exact .inl (by obtain ⟨_, _, h⟩ := sendTask_frame _ _ _; rw [h])
  | taskFail =>
      exact .inl (by obtain ⟨_, _, h⟩ := sendTask_frame _ _ _; rw [sendTaskDone, h])
  | destroy | closeCall =>
      exact .inl (by obtain ⟨_, _, _, _, _, h⟩ := MuxStream.closeCall_frame _; rw [h])
  | sendCall => exact .inl (by obtain ⟨_, _, h⟩ := MuxStream.sendCall_frame _ _ _; rw [h])
  | sendWake _ h => exact .inl (by obtain ⟨_, _, _, rfl⟩ := sendWake_frame h; rfl)
  | sendTimeout _ h => exact .inl (by obtain ⟨_, _, rfl⟩ := sendTimeout_frame h; rfl)
  | recvCall => exact .inl (by obtain ⟨_, _, _, h⟩ := recvCall_frame _ _; rw [h])
  | recvWake _ _ h => exact .inl (by obtain ⟨_, _, _, _, rfl⟩ := recvWake_frame h; rfl)
  | _ => exact .inl rfl

/-- A stream nobody has is not closed by anyone but a failed `open_stream`. -/
theorem owner_of_objStep (h : ObjStep s a r o o') (hh : o.handed = false)
    (ho : o.owner = .idle) : o'.owner = .idle ∨ ∃ b, a = .send b ∧ ∃ c f,
      (b = .writeHeader 0 ∧ s.sendPc = .header (.openStream c) r f) ∨
        (b = .writeBody 0 ∧ s.sendPc = .body (.openStream c) r f) := by
  cases h with
  | destroy hd => exact .inr ⟨_, rfl, _, _, hd⟩
  | increase _ _ h =>
      obtain ⟨_, _, _, rfl⟩ := increaseSendWindow_frame h
      exact .inl ho
  | check _ _ h =>
      obtain ⟨_, rfl⟩ := readDataCheck_frame h
      exact .inl ho
  | body _ _ _ h =>
      obtain ⟨_, _, _, _, _, _, rfl⟩ := readDataBody_frame h
      exact .inl ho
  | task => exact .inl (by obtain ⟨_, _, h⟩ := sendTask_frame _ _ _; rw [h]; exact ho)
  | taskFail =>
      exact .inl (by
        obtain ⟨_, _, h⟩ := sendTask_frame _ _ _; rw [sendTaskDone, h]; exact ho)
  | finDone => exact .inl (by simp [finDone, ho])
  | sendCall _ hp | sendWake hp | sendTimeout hp | recvCall hp | recvWake hp | closeCall hp
  | closeFin hp | closeWait hp | closeDereg hp => exact absurd hp (by simp [hh])
  | _ => exact .inl ho

/-- The registry after an `emplace`: the old entries, and at most the new one. -/
theorem emplaceStream_streams {key id : UInt32} {q : Ref}
    (h : (s.emplaceStream key q).streams id = some r) :
    s.streams id = some r ∨ (id = key ∧ r = q ∧ s.streams key = none) := by
  rw [emplaceStream] at h
  split at h
  · exact .inl h
  · next hnone =>
      dsimp only at h
      by_cases hid : id = key
      · subst hid
        rw [Function.update_self] at h
        exact .inr ⟨rfl, (Option.some.inj h).symm, by simpa using hnone⟩
      · rw [Function.update_of_ne hid] at h
        exact .inl h

/-- An entry that a step leaves was there before, or is made by one of the `emplace`s. -/
theorem streams_of_step (h : s.step a = some s') {id : UInt32}
    (hr : s'.streams id = some r) :
    s.streams id = some r ∨
      (a = .recv .emplace ∧ s.recvPc = .emplace r ∧ id = s.hdr.streamId ∧
        s.streams id = none) ∨
      (a = .send .emplace ∧ (∃ c, s.sendPc = .emplace r c) ∧ id = s.objId r ∧
        s.streams id = none) := by
  generalize hm : s'.streams = m at hr
  have hst := step_streams h
  rw [hm] at hst
  cases hst with
  | same => exact .inl hr
  | accepted hpc =>
      obtain hold | ⟨rfl, rfl, hnone⟩ := emplaceStream_streams hr
      · exact .inl hold
      · exact .inr (.inl ⟨rfl, hpc, rfl, hnone⟩)
  | opened hpc =>
      obtain hold | ⟨rfl, rfl, hnone⟩ := emplaceStream_streams hr
      · exact .inl hold
      · exact .inr (.inr ⟨rfl, ⟨_, hpc⟩, rfl, hnone⟩)
  | @erased q o =>
      by_cases hid : id = o.id
      · subst hid
        rw [Function.update_self] at hr
        exact absurd hr (by simp)
      · rw [Function.update_of_ne hid] at hr
        exact .inl hr

/-- **An object that is set up stays so**, until it is registered or its opening fails. -/
theorem Pending.step (hp : Pending s r) (h : s.step a = some s')
    (hacc : a = .recv .emplace → s.recvPc ≠ .emplace r)
    (hopen : a = .send .emplace → ∀ c, s.sendPc ≠ .emplace r c)
    (hfail : ∀ c f, ¬ (a = .send (.writeHeader 0) ∧ s.sendPc = .header (.openStream c) r f) ∧
      ¬ (a = .send (.writeBody 0) ∧ s.sendPc = .body (.openStream c) r f)) :
    Pending s' r := by
  obtain ⟨o, ho, hh, howner⟩ := hp.exist
  obtain ⟨o', ho', hstep⟩ := (step_objs h).old r o ho
  refine ⟨⟨o', ho', ?_, ?_⟩, ?_⟩
  · obtain he | ⟨ha, hpc⟩ | ⟨ha, c, hpc⟩ := handed_of_objStep hstep
    · rw [he, hh]
    · exact absurd hpc (hacc ha)
    · exact absurd hpc (hopen ha c)
  · obtain he | ⟨b, rfl, c, f, ⟨rfl, hpc⟩ | ⟨rfl, hpc⟩⟩ := owner_of_objStep hstep hh howner
    · exact he
    · exact absurd ⟨rfl, hpc⟩ (hfail c f).1
    · exact absurd ⟨rfl, hpc⟩ (hfail c f).2
  · intro id hid
    obtain hold | ⟨ha, hpc, -⟩ | ⟨ha, ⟨c, hpc⟩, -⟩ := streams_of_step h hid
    · exact hp.free id hold
    · exact hacc ha hpc
    · exact hopen ha c hpc

/-- A new object is nobody's. -/
theorem Pending.new (hids : ∀ id r, s.streams id = some r → ∃ o, s.objs[r]? = some o ∧ o.id = id)
    (hobjs : s'.objs = s.objs ++ [o]) (hstreams : s'.streams = s.streams)
    (hh : o.handed = false) (ho : o.owner = .idle) : Pending s' s.objs.length where
  exist := ⟨o, by rw [hobjs]; simp, hh, ho⟩
  free id hid := by
    rw [hstreams] at hid
    obtain ⟨o', ho', -⟩ := hids id _ hid
    exact absurd (List.getElem?_eq_some_iff.mp ho').1 (by simp)

/-- Where an accepted object comes from. -/
theorem accepting_of_step (h : s.step a = some s') (hr : s'.accepting = some r) :
    (s.accepting = some r ∧ s'.hdr = s.hdr ∧ a ≠ .recv .emplace) ∨
      (a = .recv .dispatch ∧ r = s.objs.length ∧ s'.hdr = s.hdr ∧
        s'.objs = s.objs ++ [{ id := s.hdr.streamId, state := .established }] ∧
        s'.streams = s.streams ∧ s.streams s.hdr.streamId = none ∧
        (s.hdr.msgType = .data ∨ s.hdr.msgType = .windowUpdate) ∧
        hasFlag s.hdr.flags flagSYN = true) := by
  have hother : (∀ b, a ≠ .recv b) → s.accepting = some r ∧ s'.hdr = s.hdr ∧
      a ≠ .recv .emplace := by
    intro ha
    have hf := step_recvFrame h ha
    refine ⟨?_, hf.hdr, ha _⟩
    rw [← hr, Session.accepting, Session.accepting, hf.recvPc]
  cases step_cases h with
  | recv hc =>
      cases hc with
      | accept hpc hd htype hsyn hnone =>
          obtain rfl := Option.some.inj hr
          exact .inr ⟨rfl, rfl, rfl, rfl, rfl, hnone, htype, hsyn⟩
      | ackWrite hpc =>
          obtain rfl := Option.some.inj hr
          exact .inl ⟨by rw [Session.accepting, hpc], rfl, by simp⟩
      | bodyAbort hpc => exact absurd hr (by simp [Session.accepting, hpc])
      | _ => exact absurd hr (by simp [Session.accepting, handledFrame, protoErr, acceptEmplace])
  | send | app | keep | close => exact .inl (hother (by simp))

/-- After a task has ended, only an `open_stream` that succeeded is setting up a stream. -/
theorem endTask_opening {t : Task} {q : Ref} {ok : Bool}
    (hr : (s.endTask t q ok).opening = some r) : ok = true ∧ r = q ∧ ∃ c, t = .openStream c := by
  have hres : ∀ s₁ : Session, (s₁.taskResult ok).opening = none := by
    intro s₁
    cases ok <;> rfl
  rw [endTask.eq_def] at hr
  split at hr
  · next c =>
      split at hr
      · next hok => exact ⟨hok, (Option.some.inj hr).symm, c, rfl⟩
      · exact absurd hr (by simp [Session.opening])
  all_goals exact absurd hr (by simp [hres])

/-- The task of an `open_stream` takes an id from the counter: its caller still waits, and the
session neither is closed nor has been told to go away. -/
def takesId (s : Session) (caller : ℕ) : Bool :=
  decide (caller ∈ s.openers) && !s.shutDown && !s.remoteGoaway

theorem takesId_iff {caller : ℕ} : s.takesId caller = true ↔
    caller ∈ s.openers ∧ s.shutDown = false ∧ s.remoteGoaway = false := by
  simp [takesId, and_assoc]

/-- Where an opened object comes from. -/
theorem opening_of_step (h : s.step a = some s') (hr : s'.opening = some r) :
    (s.opening = some r ∧ a ≠ .send .emplace ∧ a ≠ .send (.writeHeader 0) ∧
      a ≠ .send (.writeBody 0)) ∨
      ((∃ junk c ts, a = .send (.runTask junk) ∧ s.sendPc = .idle ∧
        s.sendChan = .openStream c :: ts ∧ s.takesId c = true) ∧ r = s.objs.length ∧
        s'.objs = s.objs ++ [{ id := s.nextStreamId + 2, state := .synSent }] ∧
        s'.streams = s.streams) := by
  by_cases hsend : ∃ b, a = .send b
  · obtain ⟨b, rfl⟩ := hsend
    cases step_cases h with
    | send hc =>
      cases hc with
      | openStream hpc hchan hcaller hopen hgoaway =>
          obtain rfl := Option.some.inj hr
          have htakes : s.takesId _ = true := takesId_iff.mpr ⟨hcaller, hopen, hgoaway⟩
          exact .inr ⟨⟨_, _, _, rfl, hpc, hchan, htakes⟩, rfl, rfl, rfl⟩
      | @header t q f n hpc hopen hpos =>
          obtain ⟨-, rfl, c, rfl⟩ := endTask_opening hr
          exact .inl ⟨by rw [Session.opening, hpc], by simp, by simp; omega, by simp⟩
      | @body t q f n hpc hopen hpos =>
          obtain ⟨-, rfl, c, rfl⟩ := endTask_opening hr
          exact .inl ⟨by rw [Session.opening, hpc], by simp, by simp, by simp; omega⟩
      | @headerMore t q f n l hpc hopen hpos =>
          refine .inl ⟨?_, by simp, by simp; omega, by simp⟩
          cases t with
          | openStream c => rw [Session.opening, hpc]; exact hr
          | _ => exact absurd hr (by simp [Session.opening])
      | headerErr | bodyErr | controlDead =>
          exact absurd (endTask_opening hr).1 (by simp)
      | @control t ts junk q hd g hpc hchan hframe =>
          cases t with
          | openStream c => exact absurd hframe (by simp [controlFrame])
          | _ => exact absurd hr (by simp [Session.opening])
      | dataGone hpc => exact absurd hr (by simp [Session.opening, hpc])
      | dataShut hpc => exact absurd hr (by simp [Session.opening, hpc, modObj])
      | _ => exact absurd hr (by simp [Session.opening, openEmplace])
  · refine .inl ⟨?_, fun ha => hsend ⟨_, ha⟩, fun ha => hsend ⟨_, ha⟩,
      fun ha => hsend ⟨_, ha⟩⟩
    have hpc : s'.sendPc = s.sendPc := by
      by_cases hack : ∃ n, a = .recv (.ackWrite n)
      · obtain ⟨n, rfl⟩ := hack
        cases step_cases h with
        | recv hc => cases hc <;> rfl
      · exact (step_sendFrame h (fun b hb => hsend ⟨b, hb⟩) fun n hn => hack ⟨n, hn⟩).sendPc
    rw [← hr, Session.opening, Session.opening, hpc]

/-- The registry does not change while the mutex is held. -/
theorem streams_eq_of_locked (h : s.step a = some s') (hl : s.muxLocked = true) :
    s'.streams = s.streams := by
  generalize hm : s'.streams = m
  have hst := step_streams h
  rw [hm] at hst
  cases hst with
  | same => rfl
  | accepted _ hmux => exact absurd hmux (by simp [hl])
  | opened _ hmux => exact absurd hmux (by simp [hl])
  | erased _ _ _ hmux => exact absurd hmux (by simp [hl])

/-! ### The invariant -/

theorem RegInv.ids_step (hinv : RegInv s) (h : s.step a = some s') (id : UInt32) (r : Ref)
    (hr : s'.streams id = some r) : ∃ o, s'.objs[r]? = some o ∧ o.id = id := by
  have hold : (∃ o, s.objs[r]? = some o ∧ o.id = id) →
      ∃ o, s'.objs[r]? = some o ∧ o.id = id := by
    rintro ⟨o, ho, hid⟩
    obtain ⟨o', ho', hid'⟩ := objId_of_step h ho
    exact ⟨o', ho', hid'.trans hid⟩
  apply hold
  obtain hr | ⟨-, hpc, rfl, -⟩ | ⟨-, ⟨c, hpc⟩, rfl, -⟩ := streams_of_step h hr
  · exact hinv.ids id r hr
  · obtain ⟨hp, hid⟩ := hinv.accepting r (by rw [Session.accepting, hpc])
    obtain ⟨o, ho, -⟩ := hp.exist
    exact ⟨o, ho, by rw [← hid, objId_eq ho]⟩
  · obtain ⟨o, ho, -⟩ := (hinv.opening r (by rw [Session.opening, hpc])).exist
    exact ⟨o, ho, (objId_eq ho).symm⟩

theorem RegInv.accepting_step (hinv : RegInv s) (h : s.step a = some s') (r : Ref)
    (hr : s'.accepting = some r) : Pending s' r ∧ s'.objId r = s'.hdr.streamId := by
  obtain ⟨hacc, hhdr, ha⟩ | ⟨-, rfl, hhdr, hobjs, hstreams, -⟩ := accepting_of_step h hr
  · obtain ⟨hp, hid⟩ := hinv.accepting r hacc
    have hapart := hinv.apart r hacc
    constructor
    · refine hp.step h (fun he => absurd he ha) (fun _ c hpc => hapart ?_) fun c f =>
        ⟨fun hx => hapart ?_, fun hx => hapart ?_⟩
      · rw [Session.opening, hpc]
      · rw [Session.opening, hx.2]
      · rw [Session.opening, hx.2]
    · obtain ⟨o, ho, -⟩ := hp.exist
      obtain ⟨o', ho', hid'⟩ := objId_of_step h ho
      rw [objId_eq ho', hid', ← objId_eq ho, hid, hhdr]
  · refine ⟨.new hinv.ids hobjs hstreams rfl rfl, ?_⟩
    rw [hhdr, objId, hobjs]
    simp

theorem RegInv.opening_step (hinv : RegInv s) (h : s.step a = some s') (r : Ref)
    (hr : s'.opening = some r) : Pending s' r := by
  obtain ⟨hopen, ha, ha₁, ha₂⟩ | ⟨-, rfl, hobjs, hstreams⟩ := opening_of_step h hr
  · refine (hinv.opening r hopen).step h (fun _ hpc => ?_) (fun he => absurd he ha)
      fun c f => ⟨fun hx => ha₁ hx.1, fun hx => ha₂ hx.1⟩
    exact hinv.apart r (by rw [Session.accepting, hpc]) hopen
  · exact .new hinv.ids hobjs hstreams rfl rfl

theorem RegInv.apart_step (hinv : RegInv s) (h : s.step a = some s') (r : Ref)
    (hacc : s'.accepting = some r) (hopen : s'.opening = some r) : False := by
  have hlt : Pending s r → r ≠ s.objs.length := by
    rintro ⟨⟨o, ho, -⟩, -⟩ rfl
    exact absurd (List.getElem?_eq_some_iff.mp ho).1 (by simp)
  obtain ⟨hacc, -, -⟩ | ⟨ha, hnew, -⟩ := accepting_of_step h hacc
  · obtain ⟨hopen, -⟩ | ⟨-, hnew, -⟩ := opening_of_step h hopen
    · exact hinv.apart r hacc hopen
    · exact hlt (hinv.accepting r hacc).1 hnew
  · obtain ⟨hopen, -⟩ | ⟨⟨_, _, _, ha', -⟩, -⟩ := opening_of_step h hopen
    · exact hlt (hinv.opening r hopen) hnew
    · rw [ha] at ha'
      exact absurd ha' (by simp)

theorem RegInv.found_step (hinv : RegInv s) (h : s.step a = some s') (r : Ref)
    (hr : s'.lookedUp = some r) : s'.streams s'.hdr.streamId = some r := by
  have hother : (∀ b, a ≠ .recv b) → s'.streams s'.hdr.streamId = some r := by
    intro ha
    have hf := step_recvFrame h ha
    have hl : s.lookedUp = some r := by rw [← hr, lookedUp, lookedUp, hf.recvPc]
    have hmux : s.muxLocked = true := by
      rw [lookedUp] at hl
      split at hl <;> simp_all [muxLocked]
    rw [streams_eq_of_locked h hmux, hf.hdr]
    exact hinv.found r hl
  cases step_cases h with
  | recv hc =>
      cases hc with
      | found hpc hmux hs =>
          obtain rfl := Option.some.inj hr
          exact hs
      | check hpc =>
          obtain rfl := Option.some.inj hr
          exact hinv.found _ (by rw [lookedUp, hpc])
      | bodyAbort hpc => exact hinv.found r hr
      | _ => exact absurd hr (by simp [lookedUp, handledFrame, protoErr, acceptEmplace])
  | send | app | keep | close => exact hother (by simp)

theorem RegInv.discard_step (hinv : RegInv s) (h : s.step a = some s')
    (hr : s'.recvPc = .discard) : s'.streams s'.hdr.streamId = none := by
  have hother : (∀ b, a ≠ .recv b) → s'.streams s'.hdr.streamId = none := by
    intro ha
    have hf := step_recvFrame h ha
    rw [hf.recvPc] at hr
    rw [streams_eq_of_locked h (by simp [muxLocked, hr]), hf.hdr]
    exact hinv.discard hr
  cases step_cases h with
  | recv hc =>
      cases hc with
      | unknownBody hpc hmux hs => exact hs
      | bodyAbort hpc => exact absurd (hpc.symm.trans hr) (by simp)
      | _ => exact absurd hr (by simp [handledFrame, protoErr, acceptEmplace])
  | send | app | keep | close => exact hother (by simp)

/-- **Every step keeps the registry invariant.** -/
theorem RegInv.step (hinv : RegInv s) (h : s.step a = some s') : RegInv s' :=
  ⟨hinv.ids_step h, hinv.accepting_step h, hinv.opening_step h,
    fun r hacc hopen => hinv.apart_step h r hacc hopen, hinv.found_step h, hinv.discard_step h⟩

/-- The registry of a new session is empty. -/
theorem RegInv.init (type : MuxStreamType) (src : Source) : RegInv (Session.init type src) := by
  constructor <;> simp [Session.init, Session.accepting, Session.opening, lookedUp]

/-- In every reachable state the registry invariant holds. -/
theorem regInv_of_reach {C : Session → Action → Bool} {type : MuxStreamType} {src : Source}
    (h : Reach Session.step C (Session.init type src) s) : RegInv s :=
  h.invariant RegInv (.init type src) fun hinv _ hs => hinv.step hs

/-! ### The end of a stream -/

/-- The first `close()` of a stream is not called after the peer has reset it. -/
def closeNotReset (s : Session) : Action → Bool
  | .app (.closeCall r) =>
      match s.objs[r]? with
      | some o => decide (o.state ≠ .reset ∨ o.owner = .returned)
      | none => true
  | _ => true

/-- The owner's `close()` is past the point where the stream is closed. -/
def Ending (o : MuxStream) : Prop :=
  o.owner = .waitWg ∨ o.owner = .dereg ∨ o.owner = .returned

/-- What `close()` makes of a stream, by the state it finds. -/
theorem closeCall_cases (o : MuxStream) :
    (o.closeCall.2.state = .localClose ∧ o.closeCall.2.owner = .waitFin) ∨
      (o.closeCall.2.state = .closed ∧ o.closeCall.2.owner ≠ .returned ∧
        Ending o.closeCall.2) ∨
      (o.closeCall.2.state = o.state ∧ o.closeCall.2.owner = .returned ∧
        (o.state = .closed ∨ o.state = .reset ∨ o.state = .init)) := by
  cases hst : o.state with
  | synSent | synReceived | established =>
      exact .inl (by simp [MuxStream.closeCall, hst, sendFlags])
  | localClose | remoteClose =>
      exact .inr (.inl (by simp [MuxStream.closeCall, hst, Ending, notifyClose]))
  | closed | reset | init => exact .inr (.inr (by simp [MuxStream.closeCall, hst]))

/-- A task of `send` changes the state of an open stream only. -/
theorem sendTask_state (o : MuxStream) (ticket count : ℕ) :
    (o.sendTask ticket count).2.state = o.state ∨ (o.state.isShut = false ∧
      ((o.sendTask ticket count).2.state = .synSent ∨
        (o.sendTask ticket count).2.state = .established)) := by
  rw [sendTask]
  split
  · exact .inl rfl
  · next hopen =>
      rw [Bool.not_eq_true] at hopen
      rw [sendFlags]
      dsimp only
      split
      · exact .inr ⟨hopen, .inl rfl⟩
      · exact .inr ⟨hopen, .inr rfl⟩
      · exact .inl rfl

theorem sendTask_owner (o : MuxStream) (ticket count : ℕ) :
    (o.sendTask ticket count).2.owner = o.owner := by
  obtain ⟨_, _, h⟩ := o.sendTask_frame ticket count
  rw [h]

/-- What a step can make of the state and of the owner's progress. -/
inductive OwnerStep (s : Session) : Action → Ref → MuxStream → MuxStream → Prop
  | keep {a : Action} {r : Ref} {o o' : MuxStream} : o'.owner = o.owner →
      (o'.state = o.state ∨ o'.state = .reset ∨ (o.state.isShut = false ∧
        (o'.state = .synSent ∨ o'.state = .established ∨ o'.state = .remoteClose))) →
      OwnerStep s a r o o'
  | finDone {a : Action} {r : Ref} {o o' : MuxStream} : o'.state = o.state →
      o.owner = .waitFin → o'.owner = .finSent → OwnerStep s a r o o'
  | destroy {a : Action} {r : Ref} {o : MuxStream} : a ≠ .recv .emplace →
      a ≠ .send .emplace → s.opening = some r → OwnerStep s a r o o.closeCall.2
  | closeCall {r : Ref} {o : MuxStream} : o.owner = .idle ∨ o.owner = .returned →
      OwnerStep s (.app (.closeCall r)) r o o.closeCall.2
  | closeFin {a : Action} {r : Ref} {o o' : MuxStream} : o.owner = .finSent →
      o'.owner = .waitWg → o'.state = .closed → OwnerStep s a r o o'
  | closeWait {a : Action} {r : Ref} {o o' : MuxStream} : o.owner = .waitWg →
      o'.owner = .dereg → o'.state = o.state → OwnerStep s a r o o'
  | closeDereg {r : Ref} {o o' : MuxStream} : o.owner = .dereg → o'.owner = .returned →
      o'.state = o.state → OwnerStep s (.app (.closeDereg r)) r o o'
  | setClose {r : Ref} {o o' : MuxStream} {rest : List Ref} : s.closePc = .closing rest →
      o'.owner = o.owner → o'.state = .closed → OwnerStep s (.close (.setClose r)) r o o'

theorem keep_of_arrived {x y : StreamState} (h : Arrived x y) :
    y = x ∨ y = .reset ∨ (x.isShut = false ∧
      (y = .synSent ∨ y = .established ∨ y = .remoteClose)) :=
  h.imp_right fun h => h.imp_right fun h => ⟨h.1, .inr h.2⟩

theorem ownerStep_of_objStep (h : ObjStep s a r o o') : OwnerStep s a r o o' := by
  cases h with
  | increase _ _ h =>
      have hst := increaseSendWindow_state h
      obtain ⟨_, _, _, rfl⟩ := increaseSendWindow_frame h
      exact .keep rfl (keep_of_arrived hst)
  | check _ _ h =>
      have hst := readDataCheck_state h
      refine .keep ?_ (keep_of_arrived hst)
      obtain ⟨_, rfl⟩ := readDataCheck_frame h
      rfl
  | body _ _ _ h =>
      obtain ⟨_, _, _, _, _, _, rfl⟩ := readDataBody_frame h
      exact .keep rfl (.inl rfl)
  | task | taskFail =>
      refine .keep (sendTask_owner _ _ _) ((sendTask_state _ _ _).imp_right fun h => ?_)
      exact .inr ⟨h.1, h.2.imp_right .inl⟩
  | finDone =>
      by_cases hw : o.owner = .waitFin
      · exact .finDone rfl hw (by simp [finDone, hw])
      · exact .keep (by simp [finDone, hw]) (.inl rfl)
  | destroy hd =>
      obtain ⟨rfl, hpc⟩ | ⟨rfl, hpc⟩ := hd <;>
        exact .destroy (by simp) (by simp) (by rw [Session.opening, hpc])
  | sendCall =>
      obtain ⟨_, _, h⟩ := MuxStream.sendCall_frame _ _ _
      rw [h]
      exact .keep rfl (.inl rfl)
  | sendWake _ h =>
      obtain ⟨_, _, _, rfl⟩ := sendWake_frame h
      exact .keep rfl (.inl rfl)
  | sendTimeout _ h =>
      obtain ⟨_, _, rfl⟩ := sendTimeout_frame h
      exact .keep rfl (.inl rfl)
  | recvCall =>
      obtain ⟨_, _, _, h⟩ := recvCall_frame _ _
      rw [h]
      exact .keep rfl (.inl rfl)
  | recvWake _ _ h =>
      obtain ⟨_, _, _, _, rfl⟩ := recvWake_frame h
      exact .keep rfl (.inl rfl)
  | closeCall _ howner => exact .closeCall howner
  | closeFin _ howner => exact .closeFin howner rfl rfl
  | closeWait _ howner => exact .closeWait howner rfl rfl
  | closeDereg _ howner => exact .closeDereg howner rfl rfl
  | setClose hpc => exact .setClose hpc rfl rfl
  | same | accepted | opened | taskEnd => exact .keep rfl (.inl rfl)

/-- No step makes a stream new again. -/
theorem OwnerStep.noInit (h : OwnerStep s a r o o') (ho : o.state ≠ .init) :
    o'.state ≠ .init := by
  have hcall : o.closeCall.2.state ≠ .init := by
    obtain ⟨hst, -⟩ | ⟨hst, -⟩ | ⟨hst, -⟩ := closeCall_cases o
    · simp [hst]
    · simp [hst]
    · rwa [hst]
  cases h with
  | keep _ hst =>
      obtain hst | hst | ⟨-, hst | hst | hst⟩ := hst
      · rwa [hst]
      all_goals simp [hst]
  | finDone hst | closeWait _ _ hst | closeDereg _ _ hst => rwa [hst]
  | destroy | closeCall => exact hcall
  | closeFin _ _ hst => simp [hst]
  | setClose _ _ hst => simp [hst]

/-- In a live session a stream is closed by its owner only. -/
theorem OwnerStep.ending (h : OwnerStep s a r o o') (hlive : s.shutDown = false)
    (hok : CloseOk s) (ho : o.state = .closed → Ending o) (hst : o'.state = .closed) :
    Ending o' := by
  have hcall : o.closeCall.2.state = .closed → Ending o.closeCall.2 := by
    intro hst
    obtain ⟨hst', -⟩ | ⟨-, -, he⟩ | ⟨-, hret, -⟩ := closeCall_cases o
    · exact absurd (hst'.symm.trans hst) (by simp)
    · exact he
    · exact .inr (.inr hret)
  cases h with
  | keep howner hst' =>
      obtain hst' | hst' | ⟨-, hst' | hst' | hst'⟩ := hst'
      · rw [Ending, howner]
        exact ho (hst'.symm.trans hst)
      all_goals exact absurd (hst'.symm.trans hst) (by simp)
  | finDone hst' howner =>
      have he := ho (hst'.symm.trans hst)
      rw [Ending, howner] at he
      exact absurd he (by simp)
  | destroy | closeCall => exact hcall hst
  | closeFin _ howner => exact .inl howner
  | closeWait _ howner => exact .inr (.inl howner)
  | closeDereg _ howner => exact .inr (.inr howner)
  | setClose hpc =>
      rw [hok (by simp [hpc])] at hlive
      exact absurd hlive (by simp)

/-- How `close()` comes to return. -/
theorem OwnerStep.returned (h : OwnerStep s a r o o') (hret : o'.owner = .returned) :
    o.owner = .returned ∨ a = .app (.closeDereg r) ∨
      (a ≠ .recv .emplace ∧ a ≠ .send .emplace ∧ s.opening = some r) ∨
      (a = .app (.closeCall r) ∧ o.owner = .idle ∧
        (o.state = .closed ∨ o.state = .reset ∨ o.state = .init)) := by
  cases h with
  | keep howner | setClose _ howner => exact .inl (howner ▸ hret)
  | finDone _ _ howner | closeFin _ howner | closeWait _ howner =>
      exact absurd (howner.symm.trans hret) (by simp)
  | destroy ha₁ ha₂ hopen => exact .inr (.inr (.inl ⟨ha₁, ha₂, hopen⟩))
  | closeDereg => exact .inr (.inl rfl)
  | closeCall howner =>
      obtain howner | howner := howner
      · obtain ⟨-, h'⟩ | ⟨-, h', -⟩ | ⟨-, -, hst⟩ := closeCall_cases o
        · exact absurd (h'.symm.trans hret) (by simp)
        · exact absurd hret h'
        · exact .inr (.inr (.inr ⟨rfl, howner, hst⟩))
      · exact .inl howner

/-- What every step of a run within the condition keeps. -/
structure CloseInv (s : Session) : Prop where
  close : CloseOk s
  reg : RegInv s
  noInit : ∀ (r : Ref) o, s.objs[r]? = some o → o.state ≠ .init
  closed : s.shutDown = false → ∀ (r : Ref) o, s.objs[r]? = some o → o.state = .closed →
    Ending o
  live : s.shutDown = false → ∀ id r o, s.streams id = some r → s.objs[r]? = some o →
    o.owner ≠ .returned

/-- `close_stream` takes the entry of the stream it is called for. -/
theorem closeDereg_streams (h : s.step (.app (.closeDereg r)) = some s')
    (ho : s.objs[r]? = some o) : s'.streams o.id = none := by
  cases step_cases h with
  | app hc =>
    cases hc with
    | closeDereg ho' =>
        obtain rfl := Option.some.inj (ho.symm.trans ho')
        exact Function.update_self ..

/-- **No step within the condition leaves an entry behind.** -/
theorem CloseInv.live_step (hinv : CloseInv s) (hC : closeNotReset s a = true)
    (h : s.step a = some s') (hlive' : s'.shutDown = false) (id : UInt32) (r : Ref)
    (o' : MuxStream) (hr : s'.streams id = some r) (ho' : s'.objs[r]? = some o') :
    o'.owner ≠ .returned := by
  intro hret
  have hlive : s.shutDown = false := by
    cases hd : s.shutDown with
    | false => rfl
    | true => exact absurd (shutDown_of_step h hd) (by simp [hlive'])
  have hobj : ∀ o, s.objs[r]? = some o → OwnerStep s a r o o' := by
    intro o ho
    obtain ⟨o₁, ho₁, hstep⟩ := (step_objs h).old r o ho
    obtain rfl : o' = o₁ := Option.some.inj (ho'.symm.trans ho₁)
    exact ownerStep_of_objStep hstep
  -- a stream that is registered by this step is not closed by it
  have hpending : Pending s r → a = .recv .emplace ∨ a = .send .emplace → False := by
    rintro ⟨⟨o, ho, -, hidle⟩, -⟩ ha
    obtain hret | rfl | ⟨ha₁, ha₂, -⟩ | ⟨rfl, -⟩ := (hobj o ho).returned hret
    · exact absurd (hidle.symm.trans hret) (by simp)
    · simp at ha
    · exact ha.elim ha₁ ha₂
    · simp at ha
  obtain hr₀ | ⟨ha, hpc, -⟩ | ⟨ha, ⟨c, hpc⟩, -⟩ := streams_of_step h hr
  · obtain ⟨o, ho, rfl⟩ := hinv.reg.ids id r hr₀
    obtain hret | rfl | ⟨-, -, hopen⟩ | ⟨rfl, hidle, hst⟩ := (hobj o ho).returned hret
    · exact hinv.live hlive _ r o hr₀ ho hret
    · rw [closeDereg_streams h ho] at hr
      exact absurd hr (by simp)
    · exact (hinv.reg.opening r hopen).free _ hr₀
    · -- the three states in which `close()` returns without `close_stream`
      obtain hst | hst | hst := hst
      · have he := hinv.closed hlive r o ho hst
        rw [Ending, hidle] at he
        exact absurd he (by simp)
      · simp [closeNotReset, ho, hst, hidle] at hC
      · exact hinv.noInit r o ho hst
  · exact hpending (hinv.reg.accepting r (by rw [Session.accepting, hpc])).1 (.inl ha)
  · exact hpending (hinv.reg.opening r (by rw [Session.opening, hpc])) (.inr ha)

/-- **Every step within the condition keeps the invariant.** -/
theorem CloseInv.step (hinv : CloseInv s) (hC : closeNotReset s a = true)
    (h : s.step a = some s') : CloseInv s' := by
  refine ⟨closeOk_of_step hinv.close h, hinv.reg.step h, ?_, ?_, ?_⟩
  · refine forall_objs_of_step h (fun r o o' _ hstep hok => ?_) (fun o hnew => ?_) hinv.noInit
    · exact (ownerStep_of_objStep hstep).noInit hok
    · cases hnew <;> simp
  · intro hlive'
    have hlive : s.shutDown = false := by
      cases hd : s.shutDown with
      | false => rfl
      | true => exact absurd (shutDown_of_step h hd) (by simp [hlive'])
    refine forall_objs_of_step h (fun r o o' _ hstep hok => ?_) (fun o hnew => ?_)
      (hinv.closed hlive)
    · exact (ownerStep_of_objStep hstep).ending hlive hinv.close hok
    · cases hnew <;> simp
  · exact fun hlive' => hinv.live_step hC h hlive'

/-- **No entry outlives its stream's `close()`.** In every run of a session in which no
stream is closed for the first time after its peer has reset it, as long as the session is
live, every entry of the registry is an object whose owner has not returned from `close()`. -/
theorem registered_not_returned {type : MuxStreamType} {src : Source} {id : UInt32}
    (h : Reach Session.step closeNotReset (Session.init type src) s)
    (hlive : s.shutDown = false) (hr : s.streams id = some r) :
    ∃ o, s.objs[r]? = some o ∧ o.owner ≠ .returned := by
  have hinit : CloseInv (Session.init type src) :=
    ⟨by simp [CloseOk, Session.init], .init type src, by simp [Session.init],
      by simp [Session.init], by simp [Session.init]⟩
  have hinv := h.invariant CloseInv hinit fun hinv hC hs => hinv.step hC hs
  obtain ⟨o, ho, -⟩ := hinv.reg.ids id r hr
  exact ⟨o, ho, hinv.live hlive id r o hr ho⟩

/-- A peer that opens a stream. -/
def oneSyn : Source := { bytes := Frame.bytes ⟨⟨.windowUpdate, flagSYN, 3, 0⟩, none⟩ }

/-- The theorem at a stream whose owner waits in `close()` for its FIN to be sent. -/
theorem registered_while_closing :
    ∃ s, Reach Session.step closeNotReset (Session.init .server oneSyn) s ∧
      s.objs.map MuxStream.owner = [.waitFin] ∧ s.streams 3 = some 0 ∧
      ∃ o, s.objs[0]? = some o ∧ o.owner ≠ .returned := by
  obtain ⟨s, hs, howner, hlive, hr⟩ : ∃ s, Reach Session.step closeNotReset
      (Session.init .server oneSyn) s ∧ s.objs.map MuxStream.owner = [.waitFin] ∧
      s.shutDown = false ∧ s.streams 3 = some 0 :=
    Reach.exists_of_exec [.recv .recvHeader, .recv .dispatch, .recv (.ackWrite 12),
      .recv .emplace, .recv .lookup, .recv .processFlags, .app (.closeCall 0)]
      (by decide +kernel)
  exact ⟨s, hs, howner, hr, registered_not_returned hs hlive hr⟩

/-- A peer that opens a stream and resets it. -/
def synThenRst : Source :=
  { bytes := framesBytes [⟨⟨.windowUpdate, flagSYN, 3, 0⟩, none⟩,
      ⟨⟨.windowUpdate, flagRST, 3, 0⟩, none⟩] }

/-- **A stale entry**: after `close()` has returned on a stream that was reset, the registry
of the live session still names it. -/
theorem reset_close_keeps_entry :
    ∃ s, Reach Session.step always (Session.init .server synThenRst) s ∧
      s.shutDown = false ∧ s.streams 3 = some 0 ∧
      s.objs.map (fun o => (o.state, o.owner)) = [(.reset, .returned)] :=
  Reach.exists_of_exec [.recv .recvHeader, .recv .dispatch, .recv (.ackWrite 12),
    .recv .emplace, .recv .lookup, .recv .processFlags, .recv .recvHeader, .recv .dispatch,
    .recv .lookup, .recv .processFlags, .app (.closeCall 0)] (by decide +kernel)

end ArchNet.Session

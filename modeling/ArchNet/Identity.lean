import ArchNet.Registry

/-!
# The Identity of Streams

A stream gets its id from one of two sources: the counter `next_stream_id_`, which the task
of `open_stream` advances by two and lets wrap, and the SYN frames of the peer, whose ids
are compared with the registry but not with the ids that are being opened here. Both then
`emplace`, which leaves an entry that is present as it is.

* `freshIds` — the condition under which the two sources do not collide: an id taken from
  the counter belongs to no registered stream and to none that is being accepted, and a SYN
  does not carry the id of a stream that is being opened.

## Main results

* `identity_of_reach`: **one stream for each id** — in every run within the condition, a
  successful `open_stream` registers a new id for the stream it returns, every stream its
  owner has not closed is the one the registry names for its id, and no two of them share
  one.
* `open_after_odd_syn`: a client whose peer has opened stream `3` opens stream `3` itself,
  and the registry keeps naming the peer's.
-/

namespace ArchNet.Session

open Lts MuxStream

variable {s s' : Session} {a : Action} {r : Ref} {o o' : MuxStream}

/-- An id that a new stream is given is not in use: from the counter, it is neither
registered nor that of a stream being accepted; from a SYN, it is not that of a stream being
opened. -/
def freshIds (s : Session) : Action → Bool
  | .send (.runTask _) =>
      match s.sendPc, s.sendChan with
      | .idle, .openStream caller :: _ =>
          decide (s.takesId caller = true → s.streams (s.nextStreamId + 2) = none ∧
            (s.accepting = none ∨ s.hdr.streamId ≠ s.nextStreamId + 2))
      | _, _ => true
  | .recv .dispatch =>
      match s.hdr.msgType, s.opening with
      | .data, some q | .windowUpdate, some q =>
          decide (hasFlag s.hdr.flags flagSYN = true → s.objId q ≠ s.hdr.streamId)
      | _, _ => true
  | _ => true

/-- A stream is past its creation, and one whose `close()` has passed the point of no return
is closed or reset. -/
structure Settled (o : MuxStream) : Prop where
  noInit : o.state ≠ .init
  ended : Ending o → o.state = .closed ∨ o.state = .reset

/-- Steps keep it. -/
theorem Settled.step (ho : Settled o) (h : OwnerStep s a r o o') : Settled o' := by
  refine ⟨h.noInit ho.noInit, fun he => ?_⟩
  have hcall : Ending o.closeCall.2 →
      o.closeCall.2.state = .closed ∨ o.closeCall.2.state = .reset := by
    intro he
    obtain ⟨-, howner⟩ | ⟨hst, -⟩ | ⟨hst, -, hst'⟩ := closeCall_cases o
    · rw [Ending, howner] at he
      exact absurd he (by simp)
    · exact .inl hst
    · rw [hst]
      obtain hst' | hst' | hst' := hst'
      · exact .inl hst'
      · exact .inr hst'
      · exact absurd hst' ho.noInit
  cases h with
  | keep howner hst =>
      rw [Ending, howner] at he
      have hst₀ := ho.ended he
      obtain hst | hst | ⟨hopen, -⟩ := hst
      · rwa [hst]
      · exact .inr hst
      · obtain hst₀ | hst₀ := hst₀ <;> simp [hst₀, StreamState.isShut] at hopen
  | finDone _ _ howner =>
      rw [Ending, howner] at he
      exact absurd he (by simp)
  | destroy | closeCall => exact hcall he
  | closeFin _ _ hst | setClose _ _ hst => exact .inl hst
  | closeWait howner _ hst => exact hst ▸ ho.ended (.inl howner)
  | closeDereg howner _ hst => exact hst ▸ ho.ended (.inr (.inl howner))

/-- A `close()` that has returned does not come back. -/
theorem Settled.returned (ho : Settled o) (h : OwnerStep s a r o o')
    (hopen : s.opening ≠ some r) (hret : o.owner = .returned) : o'.owner = .returned := by
  cases h with
  | keep howner | setClose _ howner => rw [howner, hret]
  | finDone _ howner | closeFin howner | closeWait howner =>
      exact absurd (hret.symm.trans howner) (by simp)
  | destroy _ _ hd => exact absurd hd hopen
  | closeDereg _ howner => exact howner
  | closeCall =>
      have hst := ho.ended (.inr (.inr hret))
      obtain hst | hst := hst <;> simp [MuxStream.closeCall, hst]

/-- What every step of a run within the condition keeps. -/
structure IdInv (s : Session) : Prop where
  reg : RegInv s
  settled : ∀ (r : Ref) o, s.objs[r]? = some o → Settled o
  acceptFree : ∀ r, s.accepting = some r → s.streams s.hdr.streamId = none
  openFree : ∀ r, s.opening = some r → s.streams (s.objId r) = none
  differ : ∀ r q, s.accepting = some r → s.opening = some q → s.objId q ≠ s.hdr.streamId
  live : ∀ (r : Ref) o, s.objs[r]? = some o → o.handed = true → o.owner ≠ .returned →
    s.streams o.id = some r

/-- What the condition says of the task of an `open_stream`. -/
theorem freshIds_runTask {junk : UInt32} {c : ℕ} {ts : List Task}
    (hC : freshIds s (.send (.runTask junk)) = true) (hpc : s.sendPc = .idle)
    (hchan : s.sendChan = .openStream c :: ts) (htakes : s.takesId c = true) :
    s.streams (s.nextStreamId + 2) = none ∧
      (s.accepting = none ∨ s.hdr.streamId ≠ s.nextStreamId + 2) := by
  rw [freshIds.eq_def] at hC
  simp only [hpc, hchan] at hC
  exact of_decide_eq_true hC htakes

/-- What the condition says of a SYN. -/
theorem freshIds_dispatch {q : Ref} (hC : freshIds s (.recv .dispatch) = true)
    (htype : s.hdr.msgType = .data ∨ s.hdr.msgType = .windowUpdate)
    (hopen : s.opening = some q) (hsyn : hasFlag s.hdr.flags flagSYN = true) :
    s.objId q ≠ s.hdr.streamId := by
  obtain htype | htype := htype <;>
  · rw [freshIds.eq_def] at hC
    simp only [htype, hopen] at hC
    exact of_decide_eq_true hC hsyn

/-- The id of an object being set up does not change. -/
theorem objId_eq_of_pending (h : s.step a = some s') (hp : Pending s r) :
    s'.objId r = s.objId r := by
  obtain ⟨o, ho, -⟩ := hp.exist
  obtain ⟨o', ho', hid⟩ := objId_of_step h ho
  rw [objId_eq ho', hid, objId_eq ho]

theorem IdInv.acceptFree_step (hinv : IdInv s) (h : s.step a = some s') (r : Ref)
    (hr : s'.accepting = some r) : s'.streams s'.hdr.streamId = none := by
  obtain ⟨hacc, hhdr, ha⟩ | ⟨-, -, hhdr, -, hstreams, hnone, -⟩ := accepting_of_step h hr
  · rw [hhdr, Option.eq_none_iff_forall_ne_some]
    intro q hq
    obtain hold | ⟨ha', -⟩ | ⟨-, ⟨c, hpc⟩, hid, -⟩ := streams_of_step h hq
    · exact absurd (hinv.acceptFree r hacc) (by simp [hold])
    · exact ha ha'
    · exact hinv.differ r q hacc (by rw [Session.opening, hpc]) hid.symm
  · rw [hstreams, hhdr, hnone]

theorem IdInv.openFree_step (hinv : IdInv s) (hC : freshIds s a = true)
    (h : s.step a = some s') (r : Ref) (hr : s'.opening = some r) :
    s'.streams (s'.objId r) = none := by
  obtain ⟨hopen, ha, -⟩ | ⟨⟨junk, c, ts, rfl, hpc, hchan, htakes⟩, rfl, hobjs, hstreams⟩ :=
    opening_of_step h hr
  · rw [objId_eq_of_pending h (hinv.reg.opening r hopen), Option.eq_none_iff_forall_ne_some]
    intro q hq
    obtain hold | ⟨-, hpc, hid, -⟩ | ⟨ha', -⟩ := streams_of_step h hq
    · exact absurd (hinv.openFree r hopen) (by simp [hold])
    · exact hinv.differ q r (by rw [Session.accepting, hpc]) hopen hid
    · exact ha ha'
  · have hfresh := (freshIds_runTask hC hpc hchan htakes).1
    rw [hstreams, objId, hobjs]
    simpa using hfresh

theorem IdInv.differ_step (hinv : IdInv s) (hC : freshIds s a = true)
    (h : s.step a = some s') (r q : Ref) (hr : s'.accepting = some r)
    (hq : s'.opening = some q) : s'.objId q ≠ s'.hdr.streamId := by
  obtain ⟨hacc, hhdr, -⟩ | ⟨ha, -, hhdr, -, -, -, htype, hsyn⟩ := accepting_of_step h hr
  · obtain ⟨hopen, -⟩ | ⟨⟨junk, c, ts, rfl, hpc, hchan, htakes⟩, rfl, hobjs, -⟩ :=
      opening_of_step h hq
    · rw [objId_eq_of_pending h (hinv.reg.opening q hopen), hhdr]
      exact hinv.differ r q hacc hopen
    · have hother := (freshIds_runTask hC hpc hchan htakes).2.resolve_left (by simp [hacc])
      rw [hhdr, objId, hobjs]
      simpa using hother.symm
  · obtain ⟨hopen, -⟩ | ⟨⟨_, _, _, ha', -⟩, -⟩ := opening_of_step h hq
    · rw [objId_eq_of_pending h (hinv.reg.opening q hopen), hhdr]
      subst ha
      exact freshIds_dispatch hC htype hopen hsyn
    · rw [ha] at ha'
      exact absurd ha' (by simp)

/-- `emplace` under a key that is not there. -/
theorem emplaceStream_of_none {key : UInt32} (hnone : s.streams key = none) :
    (s.emplaceStream key r).streams key = some r := by
  simp [emplaceStream, hnone]

/-- `emplace` keeps the entries that are there. -/
theorem emplaceStream_of_some {key id : UInt32} {q : Ref} (h : s.streams id = some r) :
    (s.emplaceStream key q).streams id = some r := by
  rw [emplaceStream]
  split
  · exact h
  · next hnone =>
      have hne : id ≠ key := by
        rintro rfl
        simp [h] at hnone
      simp [Function.update_of_ne hne, h]

/-- The stream that `incoming_stream` registers. -/
theorem accepted_streams (h : s.step (.recv .emplace) = some s') (hpc : s.recvPc = .emplace r) :
    s'.streams = (s.emplaceStream s.hdr.streamId r).streams := by
  cases step_cases h with
  | recv hc =>
    cases hc with
    | emplace hpc' =>
        obtain rfl := RecvPc.emplace.inj (hpc.symm.trans hpc')
        rfl

/-- The stream that `open_stream` registers. -/
theorem opened_streams {c : ℕ} (h : s.step (.send .emplace) = some s')
    (hpc : s.sendPc = .emplace r c) :
    s'.streams = (s.emplaceStream (s.objId r) r).streams := by
  cases step_cases h with
  | send hc =>
    cases hc with
    | emplace hpc' =>
        obtain ⟨rfl, rfl⟩ := SendPc.emplace.inj (hpc.symm.trans hpc')
        rfl

/-- A stream that is in use and stays so keeps its entry. -/
theorem IdInv.kept (hinv : IdInv s) (h : s.step a = some s')
    (hr : s.streams o.id = some r)
    (hdereg : a ≠ .app (.closeDereg r)) : s'.streams o.id = some r := by
  generalize hm : s'.streams = m
  have hst := step_streams h
  rw [hm] at hst
  cases hst with
  | same => exact hr
  | accepted => exact emplaceStream_of_some hr
  | opened => exact emplaceStream_of_some hr
  | @erased q oq hq hh howner =>
      have hne : o.id ≠ oq.id := by
        intro hid
        have hlive := hinv.live q oq hq hh (by simp [howner])
        rw [← hid, hr] at hlive
        exact hdereg (by rw [Option.some.inj hlive])
      rw [Function.update_of_ne hne]
      exact hr

theorem IdInv.live_step (hinv : IdInv s) (h : s.step a = some s') (r : Ref) (o' : MuxStream)
    (ho' : s'.objs[r]? = some o') (hh' : o'.handed = true) (hown' : o'.owner ≠ .returned) :
    s'.streams o'.id = some r := by
  cases ho : s.objs[r]? with
  | none =>
      obtain ⟨-, hnew⟩ := (step_objs h).new r o' ho ho'
      cases hnew <;> exact absurd hh' (by simp)
  | some o =>
      obtain ⟨o₁, ho₁, hstep⟩ := (step_objs h).old r o ho
      obtain rfl : o' = o₁ := Option.some.inj (ho'.symm.trans ho₁)
      rw [hstep.id_eq]
      obtain hh | ⟨rfl, hpc⟩ | ⟨rfl, c, hpc⟩ := handed_of_objStep hstep
      · rw [hh] at hh'
        have hopen : s.opening ≠ some r := by
          intro hopen
          obtain ⟨o₂, ho₂, hh₂, -⟩ := (hinv.reg.opening r hopen).exist
          obtain rfl := Option.some.inj (ho.symm.trans ho₂)
          exact absurd (hh'.symm.trans hh₂) (by simp)
        have howner : o.owner ≠ .returned := fun hret =>
          hown' ((hinv.settled r o ho).returned (ownerStep_of_objStep hstep) hopen hret)
        refine hinv.kept h (hinv.live r o ho hh' howner) ?_
        rintro rfl
        cases step_cases h with
        | app hc =>
          cases hc with
          | closeDereg ho₂ =>
              obtain rfl := Option.some.inj (ho.symm.trans ho₂)
              rw [show o' = { o with owner := .returned } by
                simpa [modObj, closeStream, ho] using ho'.symm] at hown'
              exact hown' rfl
      · have hacc : s.accepting = some r := by rw [Session.accepting, hpc]
        rw [← objId_eq ho, (hinv.reg.accepting r hacc).2, accepted_streams h hpc]
        exact emplaceStream_of_none (hinv.acceptFree r hacc)
      · have hopen : s.opening = some r := by rw [Session.opening, hpc]
        rw [← objId_eq ho, opened_streams h hpc]
        exact emplaceStream_of_none (hinv.openFree r hopen)

/-- **Every step within the condition keeps the invariant.** -/
theorem IdInv.step (hinv : IdInv s) (hC : freshIds s a = true) (h : s.step a = some s') :
    IdInv s' := by
  refine ⟨hinv.reg.step h, ?_, hinv.acceptFree_step h, hinv.openFree_step hC h,
    hinv.differ_step hC h, hinv.live_step h⟩
  refine forall_objs_of_step h (fun r o o' _ hstep ho => ?_) (fun o hnew => ?_) hinv.settled
  · exact ho.step (ownerStep_of_objStep hstep)
  · cases hnew <;> exact ⟨by simp, by simp [Ending]⟩

theorem idInv_of_reach {type : MuxStreamType} {src : Source}
    (h : Reach Session.step freshIds (Session.init type src) s) : IdInv s :=
  h.invariant IdInv
    ⟨.init type src, by simp [Session.init], by simp [Session.init, Session.accepting],
      by simp [Session.init, Session.opening], by simp [Session.init, Session.accepting],
      by simp [Session.init]⟩
    fun hinv hC hs => hinv.step hC hs

/-- **One stream for each id.** In every run in which the ids given to new streams are not
in use: `open_stream` registers an id that was not registered, for the stream it returns;
every stream whose owner has not returned from `close()` is the one the registry names for
its id, so that frames with this id reach it; and no two such streams share an id. -/
theorem identity_of_reach {type : MuxStreamType} {src : Source}
    (h : Reach Session.step freshIds (Session.init type src) s) :
    (∀ r c s', s.sendPc = .emplace r c → s.step (.send .emplace) = some s' →
      s.streams (s.objId r) = none ∧ s'.streams (s.objId r) = some r) ∧
    (∀ (r : Ref) o, s.objs[r]? = some o → o.handed = true → o.owner ≠ .returned →
      s.streams o.id = some r) ∧
    (∀ (r₁ r₂ : Ref) o₁ o₂, s.objs[r₁]? = some o₁ → s.objs[r₂]? = some o₂ →
      o₁.handed = true → o₁.owner ≠ .returned → o₂.handed = true → o₂.owner ≠ .returned →
      o₁.id = o₂.id → r₁ = r₂) ∧
    (∀ id r, s.streams id = some r → ∃ o, s.objs[r]? = some o ∧ o.id = id) := by
  have hinv := idInv_of_reach h
  refine ⟨?_, hinv.live, ?_, hinv.reg.ids⟩
  · intro r c s' hpc hstep
    have hnone := hinv.openFree r (by rw [Session.opening, hpc])
    refine ⟨hnone, ?_⟩
    rw [opened_streams hstep hpc]
    exact emplaceStream_of_none hnone
  · intro r₁ r₂ o₁ o₂ h₁ h₂ hh₁ hown₁ hh₂ hown₂ hid
    have hr₁ := hinv.live r₁ o₁ h₁ hh₁ hown₁
    have hr₂ := hinv.live r₂ o₂ h₂ hh₂ hown₂
    rw [hid, hr₂] at hr₁
    exact (Option.some.inj hr₁).symm

/-- The steps of accepting a stream and then opening one. -/
def acceptThenOpen : List Action :=
  [.recv .recvHeader, .recv .dispatch, .recv (.ackWrite 12), .recv .emplace, .recv .lookup,
    .recv .processFlags, .app .openCall, .send (.runTask 0), .send (.writeHeader 12),
    .send .emplace]

/-- The theorem at a client whose peer has opened stream `4` and which opens stream `3`. -/
theorem identity_after_even_syn :
    ∃ s o, Reach Session.step freshIds (Session.init .client
        { bytes := Frame.bytes ⟨⟨.windowUpdate, flagSYN, 4, 0⟩, none⟩ }) s ∧
      s.objs[1]? = some o ∧ o.id = 3 ∧ s.streams o.id = some 1 := by
  obtain ⟨s, hs, hP⟩ : ∃ s, Reach Session.step freshIds (Session.init .client
        { bytes := Frame.bytes ⟨⟨.windowUpdate, flagSYN, 4, 0⟩, none⟩ }) s ∧
      (s.objs[1]?.map fun o => (o.id, o.handed, o.owner)) = some (3, true, .idle) :=
    Reach.exists_of_exec acceptThenOpen (by decide +kernel)
  obtain ⟨o, ho, hval⟩ := Option.map_eq_some_iff.mp hP
  simp only [Prod.mk.injEq] at hval
  obtain ⟨hid, hh, howner⟩ := hval
  exact ⟨s, o, hs, ho, hid, (identity_of_reach hs).2.1 1 o ho hh (by simp [howner])⟩

/-- **Two streams with one id**: a client whose peer has opened stream `3` opens stream `3`
itself; both are in use, and the registry names the peer's. -/
theorem open_after_odd_syn :
    ∃ s, Reach Session.step always (Session.init .client oneSyn) s ∧
      s.objs.map (fun o => (o.id, o.handed, o.owner)) = [(3, true, .idle), (3, true, .idle)] ∧
      s.streams 3 = some 0 :=
  Reach.exists_of_exec acceptThenOpen (by decide +kernel)

end ArchNet.Session

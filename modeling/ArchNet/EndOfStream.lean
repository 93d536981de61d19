import ArchNet.Lts
import ArchNet.MuxStream

/-!
# The Reader of a Stream at its End

The receive side of one stream and its reader. The receive fiber appends the bodies of Data
frames and announces each of them by a token on `recv_done_notify_`; the end of the stream is
announced on the same channel by a null token. A `recv` call takes from the buffer while there
is something in it, and otherwise waits for the next token.

## Conventions

* The receive fiber is at the top of a frame (`idle`), inside `read_body`, or has left the loop
  (`ended`). Its handlers run under `mux_streams_.mutex`, which the session's `close()` takes as
  well, so `set_close` does not fall inside a frame.
* A body arrives in pieces, each of them in the buffer at once; `recv_lock_` is held until the
  body is complete, and stays held if it never is. A failed assertion ends the run.
* `ends` is a history: for each `recv` call that returned 0 or -1, what had been appended and
  what had been returned at that moment.

## Main results

* `Sound.step`: while a reader waits with bytes in the buffer, the next token is not a null one
  — kept by every step, with the exception of two.
* `loses_nothing`: **in every run without these, the reader gets every byte in order, and gets
  0 or -1 only when it has had every byte.**
* `cut_short_of_not_ordered`: after a step that makes the exception, the reader's next move
  returns -1 with bytes left.
-/

open Lts

namespace ArchNet.EndOfStream

/-- Where the receive fiber is: at the top of a frame, in `read_body` of a frame of some length
with some bytes read, out of the loop. -/
inductive FiberPc
  | idle
  | reading (length : UInt32) (close : Bool) (got : ℕ)
  | ended
  deriving DecidableEq, Repr

/-- A stream with its receive fiber and the history of the calls that have returned 0 or -1. -/
structure Side where
  stream : MuxStream
  pc : FiberPc := .idle
  ends : List (List UInt8 × List UInt8) := []
  deriving DecidableEq, Repr

/-- The steps of the receive side and of the reader. -/
inductive Action
  | windowUpdate (hdr : Header)
  | dataHeader (hdr : Header)
  | bodyPiece (bytes : List UInt8)
  | bodyEnds (ret : ℤ)
  | setClose
  | recv (count : ℕ)
  | wake
  deriving DecidableEq, Repr

/-- The bytes that `recv` has returned, concatenated. -/
def delivered (st : MuxStream) : List UInt8 := (st.recvLog.map Prod.snd).flatten

namespace Side

/-- The stream after a step of the reader; a call that returned 0 or -1 is recorded. -/
def note (s : Side) (st : MuxStream) : Side :=
  let returned := st.recvLog.drop s.stream.recvLog.length
  { s with
    stream := st
    ends := s.ends ++ (returned.filter fun x => x.1 ≤ 0).map fun _ => (st.appended, delivered st) }

/-- `increase_send_window`; the result -1 ends the loop. -/
def windowUpdate (s : Side) (hdr : Header) : Side :=
  match s.stream.increaseSendWindow hdr with
  | none => { s with pc := .ended }
  | some st => { s with stream := st }

/-- `read_data` up to `read_body`, with `recv_lock_` taken. -/
def dataHeader (s : Side) (hdr : Header) : Side :=
  match s.stream.readDataCheck hdr with
  | .error st => { s with stream := st, pc := .ended }
  | .ok (close, st) =>
      { s with stream := { st with recvLock := true }, pc := .reading hdr.length close 0 }

/-- A piece of the body in the buffer. -/
def bodyPiece (s : Side) (length : UInt32) (close : Bool) (got : ℕ) (bytes : List UInt8) : Side :=
  { s with
    stream := { s.stream with
      recvBuff := s.stream.recvBuff ++ bytes, appended := s.stream.appended ++ bytes }
    pc := .reading length close (got + bytes.length) }

/-- `read_data` from the return of `read_body` on. -/
def bodyEnds (s : Side) (length : UInt32) (close : Bool) (ret : ℤ) : Option Side :=
  match s.stream.readDataBody length close ret [] with
  | .ok st => some { s with stream := { st with recvLock := false }, pc := .idle }
  | .err st => some { s with stream := st, pc := .ended }
  | .abort => none

end Side

/-- One step. -/
def step (s : Side) : Action → Option Side
  | .windowUpdate hdr => if s.pc = .idle then some (s.windowUpdate hdr) else none
  | .dataHeader hdr => if s.pc = .idle then some (s.dataHeader hdr) else none
  | .bodyPiece bytes =>
      match s.pc with
      | .reading length close got =>
          if bytes ≠ [] ∧ got + bytes.length ≤ length.toNat then
            some (s.bodyPiece length close got bytes)
          else none
      | _ => none
  | .bodyEnds ret =>
      match s.pc with
      | .reading length close got =>
          -- the whole body, or the result of the `recv` that failed
          if (got = length.toNat ∧ ret = length.toNat) ∨ (got < length.toNat ∧ ret ≤ 0) then
            s.bodyEnds length close ret
          else none
      | _ => none
  | .setClose =>
      match s.pc with
      | .reading _ _ _ => none
      | _ => some { s with stream := s.stream.setClose }
  | .recv count =>
      if s.stream.readers = [] ∧ 1 ≤ count ∧ s.stream.recvLock = false then
        some (s.note (s.stream.recvCall count))
      else none
  | .wake =>
      if s.stream.recvLock = true ∧ s.stream.recvDone.head? = some true then none
      else (s.stream.recvWake 0).map s.note

/-- A stream without any traffic yet, in any state. -/
def fresh (id : UInt32) (state : StreamState) (window : UInt32) : Side :=
  { stream := { id := id, state := state, recvWindow := window } }

/-- **The reader loses nothing**: what it got is the first part of what was appended, and at each
return of 0 or -1 it was all of it. -/
structure LosesNothing (s : Side) : Prop where
  inOrder : delivered s.stream <+: s.stream.appended
  complete : ∀ e ∈ s.ends, e.2 = e.1

/-- A reader waits and the next token on the channel is a null one. -/
def nullNext (st : MuxStream) : Bool :=
  st.readers ≠ [] && st.recvDone.head? == some false

/-- The step **comes in order**: no bytes are appended while a reader waits with a null token
next, and no null token comes to a waiting reader while the channel is empty and bytes of an
unfinished body are in the buffer. -/
def ordered (s : Side) : Action → Bool
  | .bodyPiece _ => !nullNext s.stream
  | .setClose => !(s.stream.readers ≠ [] && s.stream.recvDone = [] && s.stream.recvBuff ≠ [])
  | _ => true

/-- **The invariant**: the bytes add up, the lock is where the receive fiber says, there is at most
one reader, and a reader that waits with bytes in the buffer has a token of success before any
null one, or the lock against it with no token at all. -/
structure Sound (s : Side) : Prop where
  account : delivered s.stream ++ s.stream.recvBuff = s.stream.appended
  complete : ∀ e ∈ s.ends, e.2 = e.1
  idle : s.pc = .idle → s.stream.recvLock = false
  reading : ∀ {length close got}, s.pc = .reading length close got → s.stream.recvLock = true
  reader : s.stream.readers = [] ∨ ∃ count, 1 ≤ count ∧ s.stream.readers = [count]
  token : s.stream.readers ≠ [] → s.stream.recvBuff ≠ [] →
    s.stream.recvDone.head? = some true ∨ s.stream.recvLock = true ∧ s.stream.recvDone = []

/-! ### The reader's steps -/

variable {s s' : Side} {st : MuxStream}

/-- A step of the reader that returns nothing. -/
theorem note_of_eq (h : st.recvLog = s.stream.recvLog) :
    s.note st = { s with stream := st } := by
  simp [Side.note, h]

/-- A step of the reader that returns a result. -/
theorem note_of_append {ret : ℤ} {bytes : List UInt8}
    (h : st.recvLog = s.stream.recvLog ++ [(ret, bytes)]) :
    s.note st = { s with
      stream := st
      ends := s.ends ++ if ret ≤ 0 then [(st.appended, delivered st)] else [] } := by
  by_cases hret : ret ≤ 0 <;> simp [Side.note, h, hret]

/-- What is returned comes from the front of the buffer. -/
theorem takeNext_account (st : MuxStream) (count : ℕ) :
    delivered (st.takeNext count) ++ (st.takeNext count).recvBuff =
      delivered st ++ st.recvBuff := by
  simp only [delivered, MuxStream.takeNext, List.map_append, List.map_cons, List.map_nil,
    List.flatten_append, List.flatten_cons, List.flatten_nil, List.append_nil,
    List.append_assoc]
  split_ifs
  · rw [List.take_append_drop]
  · rw [List.append_nil]

/-- From a buffer with bytes in it, a call with room for one gets at least one. -/
theorem note_takeNext {count : ℕ} (hcount : 1 ≤ count) (hbuff : st.recvBuff ≠ [])
    (hlog : st.recvLog = s.stream.recvLog) :
    s.note (st.takeNext count) = { s with stream := st.takeNext count } := by
  have hlen := List.length_pos_iff.mpr hbuff
  have hslice : 0 < (if count < st.recvBuff.length then st.recvBuff.take count
      else st.recvBuff).length := by
    split_ifs
    · rw [List.length_take]
      omega
    · exact hlen
  rw [note_of_append (by rw [MuxStream.takeNext, hlog]), if_neg (by omega), List.append_nil]

/-- A call that ends with the buffer empty has had every byte. -/
theorem Sound.ends (h : Sound s) {ret : ℤ} (hret : ret ≤ 0) (hempty : s.stream.recvBuff = [])
    (hbuff : st.recvBuff = s.stream.recvBuff) (happended : st.appended = s.stream.appended)
    (hlog : st.recvLog = s.stream.recvLog ++ [(ret, [])])
    (hlock : st.recvLock = s.stream.recvLock) (hreaders : st.readers = []) :
    Sound (s.note st) := by
  have hsame : delivered st = delivered s.stream := by
    simp [delivered, hlog]
  rw [note_of_append hlog, if_pos hret]
  refine ⟨?_, ?_, hlock.symm ▸ h.idle, hlock.symm ▸ h.reading, .inl hreaders,
    fun hne => absurd hreaders hne⟩
  · rw [hsame, hbuff, happended]
    exact h.account
  · intro e he
    rcases List.mem_append.mp he with he | he
    · exact h.complete e he
    · obtain rfl := List.mem_singleton.mp he
      have haccount := h.account
      rw [hempty, List.append_nil, ← happended] at haccount
      exact hsame.trans haccount

/-- A `recv` call. -/
theorem Sound.recv (h : Sound s) {count : ℕ} (hcount : 1 ≤ count)
    (hreaders : s.stream.readers = []) : Sound (s.note (s.stream.recvCall count)) := by
  rw [MuxStream.recvCall]
  by_cases hbuff : s.stream.recvBuff = []
  · rw [if_pos hbuff]
    split_ifs
    · exact h.ends (Int.le_refl 0) hbuff rfl rfl rfl rfl hreaders
    · rw [@note_of_eq s { s.stream with readers := s.stream.readers ++ [count] } rfl]
      refine ⟨h.account, h.complete, h.idle, h.reading, .inr ⟨count, hcount, ?_⟩, ?_⟩
      · rw [hreaders, List.nil_append]
      · exact fun _ hne => absurd hbuff hne
  · rw [if_neg hbuff, note_takeNext hcount hbuff rfl]
    refine ⟨?_, h.complete, h.idle, h.reading, h.reader, fun hne => absurd hreaders hne⟩
    rw [takeNext_account]
    exact h.account

/-- A waiting `recv` call takes a token: by the invariant a null one finds the buffer empty. -/
theorem Sound.wake (h : Sound s)
    (hlock : ¬ (s.stream.recvLock = true ∧ s.stream.recvDone.head? = some true))
    (hst : s.stream.recvWake 0 = some st) : Sound (s.note st) := by
  rcases h.reader with hnone | ⟨count, hcount, hreaders⟩
  · rw [MuxStream.recvWake, hnone] at hst
    cases hst
  · cases hdone : s.stream.recvDone with
    | nil =>
        rw [MuxStream.recvWake, hreaders, hdone] at hst
        cases hst
    | cons tok toks =>
        have htoken := h.token (hreaders ▸ List.cons_ne_nil _ _)
        rw [hdone] at htoken hlock
        simp only [MuxStream.recvWake, hreaders, hdone, List.getElem?_cons_zero,
          List.eraseIdx_cons_zero] at hst
        cases tok with
        | false =>
            obtain rfl := Option.some.inj hst
            have hbuff : s.stream.recvBuff = [] := by
              by_contra hne
              rcases htoken hne with hhead | ⟨-, hnil⟩
              · cases hhead
              · cases hnil
            exact h.ends (by omega) hbuff rfl rfl rfl rfl rfl
        | true =>
            dsimp only at hst
            by_cases hbuff : s.stream.recvBuff = []
            · rw [if_pos hbuff] at hst
              obtain rfl := Option.some.inj hst
              rw [note_of_eq (by rfl)]
              exact ⟨h.account, h.complete, h.idle, h.reading, .inr ⟨count, hcount, rfl⟩,
                fun _ hne => absurd hbuff hne⟩
            · rw [if_neg hbuff] at hst
              obtain rfl := Option.some.inj hst
              rw [@note_takeNext s { s.stream with readers := [], recvDone := toks } count hcount
                hbuff rfl]
              refine ⟨?_, h.complete, h.idle, h.reading, .inl rfl, fun hne => absurd rfl hne⟩
              rw [takeNext_account]
              exact h.account

/-! ### The receive side's steps -/

/-- A step that appends nothing and leaves the reader alone. -/
theorem Sound.frame (h : Sound s) {pc : FiberPc}
    (hbuff : st.recvBuff = s.stream.recvBuff) (happended : st.appended = s.stream.appended)
    (hlog : st.recvLog = s.stream.recvLog) (hreaders : st.readers = s.stream.readers)
    (hidle : pc = .idle → st.recvLock = false)
    (hreading : ∀ {length close got}, pc = .reading length close got → st.recvLock = true)
    (htoken : s.stream.readers ≠ [] → s.stream.recvBuff ≠ [] →
      st.recvDone.head? = some true ∨ st.recvLock = true ∧ st.recvDone = []) :
    Sound { s with stream := st, pc := pc } where
  account := by
    have hsame : delivered st = delivered s.stream := by rw [delivered, hlog, delivered]
    rw [hsame, hbuff, happended, h.account]
  complete := h.complete
  idle := hidle
  reading := hreading
  reader := hreaders ▸ h.reader
  token := by
    rw [hbuff, hreaders]
    exact htoken

/-- A null token behind the others does not come first. -/
theorem head?_append_false {l : List Bool} (h : l.head? = some true) :
    (l ++ [false]).head? = some true := by
  rw [List.head?_append, h]
  rfl

/-- `increase_send_window` adds at most a null token. -/
theorem increaseSendWindow_recvDone {hdr : Header} (h : s.stream.increaseSendWindow hdr = some st) :
    st.recvDone = s.stream.recvDone ∨ st.recvDone = s.stream.recvDone ++ [false] := by
  obtain ⟨⟨close, st₁⟩, hflags, rfl⟩ := Option.map_eq_some_iff.mp h
  obtain ⟨x, rfl⟩ := MuxStream.processFlags_frame hflags
  cases close with
  | false => exact .inl rfl
  | true => exact .inr rfl

theorem Sound.windowUpdate (h : Sound s) (hpc : s.pc = .idle) (hdr : Header) :
    Sound (s.windowUpdate hdr) := by
  have hlock := h.idle hpc
  rw [Side.windowUpdate]
  cases hst : s.stream.increaseSendWindow hdr with
  | none => exact h.frame rfl rfl rfl rfl nofun nofun h.token
  | some st =>
      have hdone := increaseSendWindow_recvDone hst
      obtain ⟨x, d, e, rfl⟩ := MuxStream.increaseSendWindow_frame hst
      refine h.frame rfl rfl rfl rfl (fun _ => hlock) ?_ ?_
      · intro length close got hreading
        rw [hpc] at hreading
        cases hreading
      · intro hreaders hbuff
        rcases h.token hreaders hbuff with hhead | ⟨htaken, -⟩
        · refine .inl ?_
          rcases hdone with heq | heq
          · exact heq ▸ hhead
          · exact heq ▸ head?_append_false hhead
        · rw [hlock] at htaken
          cases htaken

theorem Sound.dataHeader (h : Sound s) (hpc : s.pc = .idle) (hdr : Header) :
    Sound (s.dataHeader hdr) := by
  have hlock := h.idle hpc
  have hhead : s.stream.readers ≠ [] → s.stream.recvBuff ≠ [] →
      s.stream.recvDone.head? = some true := by
    intro hreaders hbuff
    rcases h.token hreaders hbuff with hhead | ⟨htaken, -⟩
    · exact hhead
    · rw [hlock] at htaken
      cases htaken
  rw [Side.dataHeader]
  cases hst : s.stream.readDataCheck hdr with
  | error st =>
      obtain ⟨x, rfl⟩ := MuxStream.readDataCheck_error hst
      exact h.frame rfl rfl rfl rfl nofun nofun fun hreaders hbuff => .inl (hhead hreaders hbuff)
  | ok res =>
      obtain ⟨close, st⟩ := res
      obtain ⟨⟨x, rfl⟩, -⟩ := MuxStream.readDataCheck_ok hst
      exact h.frame rfl rfl rfl rfl nofun (fun _ => rfl)
        fun hreaders hbuff => .inl (hhead hreaders hbuff)

/-- **A piece of a body**: with a reader waiting, the next token is one of success, or there is
none and the lock is held. -/
theorem Sound.bodyPiece (h : Sound s) {length : UInt32} {close : Bool} {got : ℕ}
    (hpc : s.pc = .reading length close got) (bytes : List UInt8)
    (hordered : nullNext s.stream = false) : Sound (s.bodyPiece length close got bytes) where
  account := by
    exact (List.append_assoc _ _ _).symm.trans (congrArg (· ++ bytes) h.account)
  complete := h.complete
  idle := nofun
  reading := fun _ => h.reading hpc
  reader := h.reader
  token := by
    intro hne _
    have hreaders : s.stream.readers ≠ [] := hne
    have hlock := h.reading hpc
    cases hdone : s.stream.recvDone with
    | nil => exact .inr ⟨hlock, hdone⟩
    | cons tok toks =>
        have htok : tok = true := by simpa [nullNext, hreaders, hdone] using hordered
        exact .inl (by rw [← htok]; exact congrArg List.head? hdone)

/-- The end of a body announces the bytes behind the tokens that are there. -/
theorem readDataBody_recvDone {length : UInt32} {close : Bool} {ret : ℤ}
    (h : s.stream.readDataBody length close ret [] = .ok st) :
    st.recvDone = s.stream.recvDone ++ [true] ∨
      st.recvDone = s.stream.recvDone ++ [true] ++ [false] := by
  simp only [MuxStream.readDataBody] at h
  split_ifs at h with hzero hlen hclose
  · obtain rfl := MuxStream.ReadOutcome.ok.inj h
    exact .inr rfl
  · obtain rfl := MuxStream.ReadOutcome.ok.inj h
    exact .inl rfl

theorem Sound.bodyEnds (h : Sound s) {length : UInt32} {close : Bool} {got : ℕ} {ret : ℤ}
    (hpc : s.pc = .reading length close got) (hs : s.bodyEnds length close ret = some s') :
    Sound s' := by
  have hlock := h.reading hpc
  rw [Side.bodyEnds] at hs
  cases hst : s.stream.readDataBody length close ret [] with
  | ok st =>
      rw [hst] at hs
      obtain rfl := Option.some.inj hs
      have hdone := readDataBody_recvDone hst
      obtain ⟨-, -, d, e, rfl⟩ := MuxStream.readDataBody_ok hst
      refine h.frame (List.append_nil _) (List.append_nil _) rfl rfl (fun _ => rfl) nofun ?_
      intro hreaders hbuff
      have hhead : (s.stream.recvDone ++ [true]).head? = some true := by
        rcases h.token hreaders hbuff with hhead | ⟨-, hnil⟩
        · rw [List.head?_append, hhead]
          rfl
        · rw [hnil]
          rfl
      rcases hdone with heq | heq
      · exact .inl (heq ▸ hhead)
      · exact .inl (heq ▸ head?_append_false hhead)
  | err st =>
      rw [hst] at hs
      obtain rfl := Option.some.inj hs
      rw [MuxStream.readDataBody_err hst]
      refine h.frame (List.append_nil _) (List.append_nil _) rfl rfl nofun nofun ?_
      intro hreaders hbuff
      exact (h.token hreaders hbuff).imp_right fun hheld => ⟨rfl, hheld.2⟩
  | abort =>
      rw [hst] at hs
      cases hs

theorem Sound.setClose (h : Sound s) (hpc : ∀ length close got, s.pc ≠ .reading length close got)
    (hordered : ordered s .setClose = true) :
    Sound { s with stream := s.stream.setClose } := by
  refine h.frame rfl rfl rfl rfl h.idle (fun heq => absurd heq (hpc _ _ _)) ?_
  intro hreaders hbuff
  rcases h.token hreaders hbuff with hhead | ⟨-, hnil⟩
  · exact .inl (head?_append_false hhead)
  · simp [ordered, hreaders, hbuff, hnil] at hordered

/-- **Every step that comes in order keeps the invariant.** -/
theorem Sound.step {a : Action} (h : Sound s) (hordered : ordered s a = true)
    (hs : step s a = some s') : Sound s' := by
  cases a with
  | windowUpdate hdr =>
      obtain ⟨hpc, hs⟩ := Option.ite_none_right_eq_some.mp hs
      exact Option.some.inj hs ▸ h.windowUpdate hpc hdr
  | dataHeader hdr =>
      obtain ⟨hpc, hs⟩ := Option.ite_none_right_eq_some.mp hs
      exact Option.some.inj hs ▸ h.dataHeader hpc hdr
  | bodyPiece bytes =>
      cases hpc : s.pc with
      | reading length close got =>
          simp only [EndOfStream.step, hpc, Option.ite_none_right_eq_some] at hs
          have hnull : nullNext s.stream = false := by simpa [ordered] using hordered
          exact Option.some.inj hs.2 ▸ h.bodyPiece hpc bytes hnull
      | idle | ended =>
          rw [EndOfStream.step, hpc] at hs
          cases hs
  | bodyEnds ret =>
      cases hpc : s.pc with
      | reading length close got =>
          simp only [EndOfStream.step, hpc, Option.ite_none_right_eq_some] at hs
          exact h.bodyEnds hpc hs.2
      | idle | ended =>
          rw [EndOfStream.step, hpc] at hs
          cases hs
  | setClose =>
      cases hpc : s.pc with
      | reading length close got =>
          rw [EndOfStream.step, hpc] at hs
          cases hs
      | idle | ended =>
          rw [EndOfStream.step, hpc] at hs
          obtain rfl := Option.some.inj hs
          have hnot : ∀ length close got, s.pc ≠ .reading length close got := by
            intro length close got heq
            rw [hpc] at heq
            cases heq
          have hset := h.setClose hnot hordered
          rwa [hpc] at hset
  | recv count =>
      obtain ⟨⟨hreaders, hcount, -⟩, hs⟩ := Option.ite_none_right_eq_some.mp hs
      exact Option.some.inj hs ▸ h.recv hcount hreaders
  | wake =>
      obtain ⟨hlock, hs⟩ := Option.ite_none_left_eq_some.mp hs
      obtain ⟨st, hst, rfl⟩ := Option.map_eq_some_iff.mp hs
      exact h.wake hlock hst

theorem Sound.losesNothing (h : Sound s) : LosesNothing s :=
  ⟨⟨s.stream.recvBuff, h.account⟩, h.complete⟩

theorem sound_fresh (id : UInt32) (state : StreamState) (window : UInt32) :
    Sound (fresh id state window) where
  account := rfl
  complete := by
    intro e he
    cases he
  idle _ := rfl
  reading := nofun
  reader := .inl rfl
  token hne := absurd rfl hne

theorem sound_of_reach {id : UInt32} {state : StreamState} {window : UInt32}
    (h : Reach step ordered (fresh id state window) s) : Sound s :=
  h.invariant Sound (sound_fresh id state window) fun hsound hordered hs => hsound.step hordered hs

/-- **The reader loses nothing before the end of the stream**, in every run in which no bytes
reach the buffer between a null token and the reader that waits for it. -/
theorem loses_nothing {id : UInt32} {state : StreamState} {window : UInt32}
    (h : Reach step ordered (fresh id state window) s) : LosesNothing s :=
  (sound_of_reach h).losesNothing

/-- The session closes while a reader waits, and a frame that was already under way still
arrives: the reader gets -1, and the byte is left. -/
theorem setClose_cuts_short :
    ¬ ∀ (id : UInt32) (state : StreamState) (window : UInt32) (s : Side),
      Reach step always (fresh id state window) s → LosesNothing s := by
  intro hall
  obtain ⟨s, hreach, hends⟩ :=
    @Reach.exists_of_exec _ _ step always (fresh 1 .established maxStreamWindowSize)
      [.recv 4, .setClose, .dataHeader ⟨.data, 0, 1, 1⟩, .bodyPiece [7], .bodyEnds 1, .wake]
      (fun s => s.ends = [([7], [])]) inferInstance (by decide)
  have hcomplete := (hall _ _ _ s hreach).complete ([7], []) (hends ▸ List.mem_singleton_self _)
  cases hcomplete

/-- The premise is met by a run in which a frame of two bytes ends the stream, and the reader
takes them one by one. -/
theorem loses_nothing_two_bytes :
    ∃ s : Side, Reach step ordered (fresh 1 .established maxStreamWindowSize) s ∧
      s.ends = [([7, 8], [7, 8])] ∧ LosesNothing s := by
  obtain ⟨s, hreach, hends⟩ :=
    @Reach.exists_of_exec _ _ step ordered (fresh 1 .established maxStreamWindowSize)
      [.recv 1, .dataHeader ⟨.data, flagFIN, 1, 2⟩, .bodyPiece [7], .bodyPiece [8], .bodyEnds 2,
        .wake, .recv 1, .recv 1]
      (fun s => s.ends = [([7, 8], [7, 8])]) inferInstance (by decide)
  exact ⟨s, hreach, hends, loses_nothing hreach⟩

/-! ### What the exceptions lead to -/

/-- A reader with a null token next and bytes in the buffer returns -1 and leaves them. -/
theorem wake_cuts_short {count : ℕ} {toks : List Bool}
    (haccount : delivered s.stream ++ s.stream.recvBuff = s.stream.appended)
    (hreaders : s.stream.readers = [count]) (hdone : s.stream.recvDone = false :: toks)
    (hbuff : s.stream.recvBuff ≠ []) : ∃ s', step s .wake = some s' ∧ ¬ LosesNothing s' := by
  let st : MuxStream := { s.stream with
    readers := [], recvDone := toks, recvLog := s.stream.recvLog ++ [(-1, [])] }
  have hwake : s.stream.recvWake 0 = some st := by
    simp [MuxStream.recvWake, hreaders, hdone, st]
  refine ⟨s.note st, ?_, ?_⟩
  · rw [step, if_neg, hwake]
    · rfl
    · rw [hdone]
      rintro ⟨-, hhead⟩
      cases hhead
  · intro hlosesNothing
    have hnote := @note_of_append s st (-1) [] rfl
    rw [if_pos (by omega)] at hnote
    have hmem : (st.appended, delivered st) ∈ (s.note st).ends := by
      rw [hnote]
      exact List.mem_append_right _ (List.mem_singleton_self _)
    have hall : delivered st = s.stream.appended := hlosesNothing.complete _ hmem
    have hsame : delivered st = delivered s.stream := by simp [delivered, st]
    rw [hsame, ← haccount, List.self_eq_append_right] at hall
    exact hbuff hall

/-- **The exceptions are real**: after a step that does not come in order, the reader's next move
returns -1 with bytes left. -/
theorem cut_short_of_not_ordered {a : Action} (h : Sound s) (hordered : ordered s a = false)
    (hs : step s a = some s') : ∃ s'', step s' .wake = some s'' ∧ ¬ LosesNothing s'' := by
  have hone : s.stream.readers ≠ [] → ∃ count, s.stream.readers = [count] := by
    intro hne
    rcases h.reader with hnone | ⟨count, -, heq⟩
    · exact absurd hnone hne
    · exact ⟨count, heq⟩
  cases a with
  | bodyPiece bytes =>
      simp only [ordered, nullNext, Bool.not_eq_false', Bool.and_eq_true, decide_eq_true_eq,
        beq_iff_eq] at hordered
      obtain ⟨count, hreaders⟩ := hone hordered.1
      cases hdone : s.stream.recvDone with
      | nil =>
          rw [hdone] at hordered
          cases hordered.2
      | cons tok toks =>
          obtain rfl : tok = false := by simpa [hdone] using hordered.2
          cases hpc : s.pc with
          | reading length close got =>
              simp only [step, hpc, Option.ite_none_right_eq_some] at hs
              obtain rfl := Option.some.inj hs.2
              refine wake_cuts_short ?_ hreaders hdone ?_
              · exact (List.append_assoc _ _ _).symm.trans (congrArg (· ++ bytes) h.account)
              · exact List.append_ne_nil_of_right_ne_nil _ hs.1.1
          | idle | ended =>
              rw [step, hpc] at hs
              cases hs
  | setClose =>
      simp only [ordered, Bool.not_eq_false', Bool.and_eq_true, decide_eq_true_eq] at hordered
      obtain ⟨⟨hne, hdone⟩, hbuff⟩ := hordered
      obtain ⟨count, hreaders⟩ := hone hne
      have hdone' : s.stream.recvDone ++ [false] = false :: [] := by rw [hdone]; rfl
      cases hpc : s.pc with
      | reading length close got =>
          rw [step, hpc] at hs
          cases hs
      | idle | ended =>
          rw [step, hpc] at hs
          obtain rfl := Option.some.inj hs
          exact wake_cuts_short h.account hreaders hdone' hbuff
  | windowUpdate | dataHeader | bodyEnds | recv | wake => cases hordered

end ArchNet.EndOfStream

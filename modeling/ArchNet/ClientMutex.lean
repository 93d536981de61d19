import ArchNet.Bytes
import ArchNet.EndpointReuse
import Mathlib.Data.Fintype.Pigeonhole

/-!
# The Mutex of the Client of Multiplexed Sessions

`MultiplexingSocketClient::connect` takes its mutex by hand. It is held from the look-up to the
end of `open_stream` on a cached session; it is released before dialling and taken again for the
registration of the new session. This module follows any number of calls through these points,
step by step and in any order.

## Conventions

* What `open_stream` and the dialling come to is part of the action; a session that is made has a
  place in memory of its own.
* The sessions whose `open_stream` has failed are recorded; no step looks at the record.

## Main results

* `connect_releases_iff`: every call that has returned has released the mutex, and no session that
  has failed is registered, **exactly if no cached session refuses a stream**.
* `no_failed_session`: the second part holds in every run.
* `held_for_good`: after such a refusal no call gets past the mutex any more.
* `refusal_possible`: whatever the hash function, a cached session can be found and can refuse.
-/

namespace ArchNet.ClientMutex

open Lts

/-- How far a call of `connect` is: in `open_stream` on a cached session, with the mutex held;
dialling, with the mutex released; before the registration of its session; returned. -/
inductive Pc
  | opening (ses : SessionRef)
  | dialing
  | registering (ses : SessionRef)
  | returned (stream : Option SessionRef)
  deriving DecidableEq

def Pc.isRegistering : Pc → Bool
  | registering _ => true
  | opening _ | dialing | returned _ => false

/-- A call of `connect(remote)`. -/
structure Call where
  remote : EndPoint
  pc : Pc
  deriving DecidableEq

/-- The client: its sessions, the call that holds `mutex_`, and the calls by number. -/
structure State where
  sessions : List (EndPoint × SessionRef) := []
  mutex : Option ℕ := none
  calls : List Call := []
  -- history: the sessions made, and those whose `open_stream` has failed
  made : List ℕ := []
  failed : List ℕ := []
  deriving DecidableEq

/-- A client with the given sessions and no call under way. -/
def State.init (sessions : List (EndPoint × SessionRef)) : State :=
  { sessions, made := sessions.map fun e => e.2.ref }

/-- The steps of a call: up to the look-up, `open_stream` on the cached session, dialling and
`open_stream` on the new session, and the registration. -/
inductive Action
  | enter (remote : EndPoint)
  | openCached (c : ℕ) (ok : Bool)
  | dial (c : ℕ) (result : Option (ℕ × Bool))
  | emplace (c : ℕ) (order : List (EndPoint × SessionRef))

variable (hashString : List UInt8 → UInt64)

/-- `sessions_.find(ep)`. -/
def State.find (s : State) (ep : EndPoint) : Option (EndPoint × SessionRef) :=
  HashTable.find? (EndPoint.hash hashString) EndPoint.eq s.sessions ep

/-- A call goes on. -/
def State.goTo (s : State) (c : ℕ) (remote : EndPoint) (pc : Pc) : State :=
  { s with calls := s.calls.set c ⟨remote, pc⟩ }

/-- `mutex_.lock()` and the look-up; where nothing is found the mutex is released. -/
def enter (s : State) (remote : EndPoint) : Option State :=
  if s.mutex.isSome then none
  else
    match s.find hashString remote with
    | none => some { s with calls := s.calls ++ [⟨remote, .dialing⟩] }
    | some (_, ses) => some { s with
        mutex := some s.calls.length, calls := s.calls ++ [⟨remote, .opening ses⟩] }

/-- `open_stream` on the cached session. On success the mutex is released; a session that
refuses is erased, and the call returns without `mutex_.unlock()`. -/
def openCached (s : State) (c : ℕ) (ok : Bool) : Option State :=
  match s.calls[c]? with
  | some ⟨remote, .opening ses⟩ =>
      if ok then
        some { s.goTo c remote (.returned (some ses)) with mutex := none }
      else
        some { s.goTo c remote (.returned none) with
          sessions :=
            HashTable.eraseFound (EndPoint.hash hashString) EndPoint.eq s.sessions remote
          failed := s.failed ++ [ses.ref] }
  | _ => none

/-- Dialling, and `open_stream` on the session made on the new connection. -/
def dial (s : State) (c : ℕ) (result : Option (ℕ × Bool)) : Option State :=
  match s.calls[c]? with
  | some ⟨remote, .dialing⟩ =>
      match result with
      | none => some (s.goTo c remote (.returned none))
      | some (ref, ok) =>
          if ref ∈ s.made then none
          else if ok then
            some { s.goTo c remote (.registering ⟨ref, remote.sockAddr⟩) with
              made := s.made ++ [ref] }
          else
            some { s.goTo c remote (.returned none) with
              made := s.made ++ [ref], failed := s.failed ++ [ref] }
  | _ => none

/-- `sessions_.emplace` between `lock` and `unlock`; an entry that is there is kept. -/
def emplace (s : State) (c : ℕ) (order : List (EndPoint × SessionRef)) : Option State :=
  match s.calls[c]? with
  | some ⟨remote, .registering ses⟩ =>
      if s.mutex.isSome then none
      else if (s.find hashString remote).isSome then
        some (s.goTo c remote (.returned (some ses)))
      else if order.Perm ((remote, ses) :: s.sessions) then
        some { s.goTo c remote (.returned (some ses)) with sessions := order }
      else none
  | _ => none

/-- One step of one call. -/
def step (s : State) : Action → Option State
  | .enter remote => enter hashString s remote
  | .openCached c ok => openCached hashString s c ok
  | .dial c result => dial s c result
  | .emplace c order => emplace hashString s c order

/-- The condition on a step: **no cached session refuses**. -/
def noRefusal (_ : State) : Action → Bool
  | .openCached _ ok => ok
  | .enter _ | .dial _ _ | .emplace _ _ => true

/-- The call has returned. -/
def Returned (s : State) (c : ℕ) : Prop :=
  ∃ remote stream, s.calls[c]? = some ⟨remote, .returned stream⟩

/-- No session whose `open_stream` has failed is registered. -/
def NoneFailed (s : State) : Prop := ∀ e ∈ s.sessions, e.2.ref ∉ s.failed

/-- What is asked of `connect`. -/
structure Released (s : State) : Prop where
  mutex : ∀ c, Returned s c → s.mutex ≠ some c
  noneFailed : NoneFailed s

variable {hashString} {s s' : State}

/-! ### What the steps do -/

/-- `connect` finds the mutex free, and goes on to dial or, with the mutex, to the cached session.
-/
theorem enter_cases {remote : EndPoint} (h : enter hashString s remote = some s') :
    s.mutex = none ∧
      ((s.find hashString remote = none ∧
        s' = { s with calls := s.calls ++ [⟨remote, .dialing⟩] }) ∨
      ∃ k ses, s.find hashString remote = some (k, ses) ∧ s' = { s with
        mutex := some s.calls.length, calls := s.calls ++ [⟨remote, .opening ses⟩] }) := by
  rw [enter, Option.ite_none_left_eq_some, Option.not_isSome_iff_eq_none] at h
  obtain ⟨hfree, h⟩ := h
  cases hfind : s.find hashString remote with
  | none =>
      rw [hfind] at h
      exact ⟨hfree, .inl ⟨rfl, (Option.some.inj h).symm⟩⟩
  | some e =>
      obtain ⟨k, ses⟩ := e
      rw [hfind] at h
      exact ⟨hfree, .inr ⟨k, ses, rfl, (Option.some.inj h).symm⟩⟩

/-- The stream on the cached session is opened and the mutex given back, or it is refused and the
session erased. -/
theorem openCached_cases {c : ℕ} {ok : Bool} (h : openCached hashString s c ok = some s') :
    ∃ remote ses, s.calls[c]? = some ⟨remote, .opening ses⟩ ∧
      ((ok = true ∧ s' = { s.goTo c remote (.returned (some ses)) with mutex := none }) ∨
      (ok = false ∧ s' = { s.goTo c remote (.returned none) with
        sessions := HashTable.eraseFound (EndPoint.hash hashString) EndPoint.eq s.sessions remote
        failed := s.failed ++ [ses.ref] })) := by
  rw [openCached] at h
  split at h
  · next remote ses hcall =>
      refine ⟨remote, ses, hcall, ?_⟩
      cases ok with
      | true => exact .inl ⟨rfl, (Option.some.inj h).symm⟩
      | false => exact .inr ⟨rfl, (Option.some.inj h).symm⟩
  · cases h

/-- A dial fails, or it makes a session, which fails or is registered next. -/
theorem dial_cases {c : ℕ} {result : Option (ℕ × Bool)} (h : dial s c result = some s') :
    ∃ remote, s.calls[c]? = some ⟨remote, .dialing⟩ ∧
      (s' = s.goTo c remote (.returned none) ∨
      ∃ ref, ref ∉ s.made ∧
        (s' = { s.goTo c remote (.registering ⟨ref, remote.sockAddr⟩) with
            made := s.made ++ [ref] } ∨
          s' = { s.goTo c remote (.returned none) with
            made := s.made ++ [ref], failed := s.failed ++ [ref] })) := by
  rw [dial] at h
  split at h
  · next remote hcall =>
      refine ⟨remote, hcall, ?_⟩
      rcases result with _ | ⟨ref, ok⟩
      · exact .inl (Option.some.inj h).symm
      · dsimp only at h
        rw [Option.ite_none_left_eq_some] at h
        obtain ⟨hnew, h⟩ := h
        refine .inr ⟨ref, hnew, ?_⟩
        cases ok with
        | true => exact .inl (Option.some.inj h).symm
        | false => exact .inr (Option.some.inj h).symm
  · cases h

/-- A new session is put into the cache if nothing is found for its address. -/
theorem emplace_cases {c : ℕ} {order : List (EndPoint × SessionRef)}
    (h : emplace hashString s c order = some s') :
    ∃ remote ses, s.calls[c]? = some ⟨remote, .registering ses⟩ ∧ s.mutex = none ∧
      (s' = s.goTo c remote (.returned (some ses)) ∨
      (order.Perm ((remote, ses) :: s.sessions) ∧
        s' = { s.goTo c remote (.returned (some ses)) with sessions := order })) := by
  rw [emplace] at h
  split at h
  · next remote ses hcall =>
      rw [Option.ite_none_left_eq_some, Option.not_isSome_iff_eq_none] at h
      obtain ⟨hfree, h⟩ := h
      refine ⟨remote, ses, hcall, hfree, ?_⟩
      split_ifs at h with hfound hperm
      · exact .inl (Option.some.inj h).symm
      · exact .inr ⟨hperm, (Option.some.inj h).symm⟩
  · cases h

/-! ### The calls -/

/-- A call that goes on leaves the others where they are. -/
theorem getElem?_goTo {c i : ℕ} {remote : EndPoint} {pc : Pc} {call : Call}
    (h : (s.goTo c remote pc).calls[i]? = some call) :
    (i = c ∧ call = ⟨remote, pc⟩) ∨ (i ≠ c ∧ s.calls[i]? = some call) := by
  rw [State.goTo, List.getElem?_set] at h
  split_ifs at h with heq
  · exact .inl ⟨heq.symm, (Option.some.inj h).symm⟩
  · exact .inr ⟨Ne.symm heq, h⟩

theorem getElem?_goTo_self {c : ℕ} {remote : EndPoint} {pc : Pc} {call : Call}
    (h : s.calls[c]? = some call) : (s.goTo c remote pc).calls[c]? = some ⟨remote, pc⟩ := by
  obtain ⟨hlt, -⟩ := List.getElem?_eq_some_iff.mp h
  rw [State.goTo, List.getElem?_set_self hlt]

theorem getElem?_goTo_of_ne {c i : ℕ} {remote : EndPoint} {pc : Pc} (h : i ≠ c) :
    (s.goTo c remote pc).calls[i]? = s.calls[i]? :=
  List.getElem?_set_ne (Ne.symm h)

theorem getElem?_concat {calls : List Call} {new call : Call} {i : ℕ}
    (h : (calls ++ [new])[i]? = some call) :
    calls[i]? = some call ∨ (i = calls.length ∧ call = new) := by
  rcases Nat.lt_or_ge i calls.length with hlt | hge
  · rw [List.getElem?_append_left hlt] at h
    exact .inl h
  · rw [List.getElem?_append_right hge, List.getElem?_singleton] at h
    split_ifs at h with hzero
    exact .inr ⟨by omega, (Option.some.inj h).symm⟩

/-! ### The invariant -/

/-- What holds of a call at its point of the code. -/
def CallOk (hashString : List UInt8 → UInt64) (s : State) (c : ℕ) (call : Call) : Prop :=
  match call.pc with
  | .opening ses => s.mutex = some c ∧ ∃ k, s.find hashString call.remote = some (k, ses)
  | .dialing => s.mutex ≠ some c
  | .registering ses => s.mutex ≠ some c ∧ ses.ref ∈ s.made ∧ ses.ref ∉ s.failed ∧
      ∀ e ∈ s.sessions, e.2.ref ≠ ses.ref
  | .returned _ => True

/-- The call is about to register the session. -/
def Registers (s : State) (c : ℕ) (ses : SessionRef) : Prop :=
  ∃ remote, s.calls[c]? = some ⟨remote, .registering ses⟩

/-- The **invariant**: the mutex is where the calls say, and a session that waits for its
registration is new. -/
structure Inv (hashString : List UInt8 → UInt64) (s : State) : Prop where
  calls : ∀ {c : ℕ} {call : Call}, s.calls[c]? = some call → CallOk hashString s c call
  holder : ∀ c, s.mutex = some c → c < s.calls.length
  distinct : ∀ {c c' : ℕ} {ses ses' : SessionRef}, Registers s c ses → Registers s c' ses' →
    ses.ref = ses'.ref → c = c'
  known : ∀ e ∈ s.sessions, e.2.ref ∈ s.made
  failed : ∀ r ∈ s.failed, r ∈ s.made

theorem inv_init (sessions : List (EndPoint × SessionRef)) :
    Inv hashString (.init sessions) where
  calls := nofun
  holder := nofun
  distinct := by
    rintro _ _ _ _ ⟨_, h⟩
    cases h
  known _ he := List.mem_map_of_mem he
  failed := nofun

/-- What a step of another call keeps. -/
theorem CallOk.frame {c : ℕ} {call : Call} (h : CallOk hashString s c call)
    (hmutex : s'.mutex = some c ↔ s.mutex = some c)
    (hopen : s.mutex = some c → s'.sessions = s.sessions)
    (hreg : ∀ ses, call.pc = .registering ses → ses.ref ∈ s.made → ses.ref ∉ s.failed →
      (∀ e ∈ s.sessions, e.2.ref ≠ ses.ref) →
      ses.ref ∈ s'.made ∧ ses.ref ∉ s'.failed ∧ ∀ e ∈ s'.sessions, e.2.ref ≠ ses.ref) :
    CallOk hashString s' c call := by
  obtain ⟨remote, pc⟩ := call
  cases pc with
  | opening ses =>
      obtain ⟨hheld, k, hfind⟩ := h
      refine ⟨hmutex.mpr hheld, k, ?_⟩
      rw [State.find, hopen hheld]
      exact hfind
  | dialing => exact mt hmutex.mp h
  | registering ses =>
      obtain ⟨hother, hmade, hfailed, hnew⟩ := h
      exact ⟨mt hmutex.mp hother, hreg ses rfl hmade hfailed hnew⟩
  | returned stream => trivial

/-- A session that is about to be registered was so before another call went on. -/
theorem Registers.of_goTo {c c' : ℕ} {remote : EndPoint} {pc : Pc} {ses : SessionRef}
    (hpc : pc.isRegistering = false) (hcalls : s'.calls = (s.goTo c remote pc).calls)
    (h : Registers s' c' ses) : Registers s c' ses := by
  obtain ⟨r, hc⟩ := h
  rw [hcalls] at hc
  rcases getElem?_goTo hc with ⟨-, hnew⟩ | ⟨-, hold⟩
  · rw [← (Call.mk.inj hnew).2] at hpc
    cases hpc
  · exact ⟨r, hold⟩

/-- A call that begins registers nothing. -/
theorem Registers.of_concat {c : ℕ} {remote : EndPoint} {pc : Pc} {ses : SessionRef}
    (hpc : pc.isRegistering = false) (hcalls : s'.calls = s.calls ++ [⟨remote, pc⟩])
    (h : Registers s' c ses) : Registers s c ses := by
  obtain ⟨r, hc⟩ := h
  rw [hcalls] at hc
  rcases getElem?_concat hc with hold | ⟨-, hnew⟩
  · exact ⟨r, hold⟩
  · rw [← (Call.mk.inj hnew).2] at hpc
    cases hpc

/-- The invariant, at the lookup. -/
theorem Inv.enter {remote : EndPoint} (hinv : Inv hashString s)
    (h : enter hashString s remote = some s') : Inv hashString s' := by
  obtain ⟨hfree, ⟨-, rfl⟩ | ⟨k, ses, hfind, rfl⟩⟩ := enter_cases h
  · refine ⟨?_, ?_, ?_, hinv.known, hinv.failed⟩
    · intro c call hcall
      rcases getElem?_concat hcall with hold | ⟨rfl, rfl⟩
      · exact hinv.calls hold
      · change s.mutex ≠ _
        rw [hfree]
        exact nofun
    · intro c hc
      rw [hfree] at hc
      cases hc
    · intro c c' ses ses' hc hc'
      exact hinv.distinct (hc.of_concat rfl rfl) (hc'.of_concat rfl rfl)
  · refine ⟨?_, ?_, ?_, hinv.known, hinv.failed⟩
    · intro c call hcall
      rcases getElem?_concat hcall with hold | ⟨rfl, rfl⟩
      · obtain ⟨hlt, -⟩ := List.getElem?_eq_some_iff.mp hold
        refine (hinv.calls hold).frame ?_ (fun _ => rfl) (fun _ _ h₁ h₂ h₃ => ⟨h₁, h₂, h₃⟩)
        refine iff_of_false ?_ (by rw [hfree]; exact nofun)
        intro heq
        exact Nat.ne_of_gt hlt (Option.some.inj heq)
      · exact ⟨rfl, k, hfind⟩
    · intro c hc
      obtain rfl := Option.some.inj hc
      rw [List.length_append, List.length_singleton]
      exact Nat.lt_succ_self _
    · intro c c' ses ses' hc hc'
      exact hinv.distinct (hc.of_concat rfl rfl) (hc'.of_concat rfl rfl)

/-- The invariant, after a stream on the cached session. -/
theorem Inv.openCached {c : ℕ} {ok : Bool} (hinv : Inv hashString s)
    (h : openCached hashString s c ok = some s') : Inv hashString s' := by
  obtain ⟨remote, ses, hcall, hres⟩ := openCached_cases h
  obtain ⟨hheld, k, hfind⟩ := hinv.calls hcall
  have hmem : (k, ses) ∈ s.sessions := HashTable.mem_of_find? hfind
  have hother : ∀ {i : ℕ}, i ≠ c → s.mutex ≠ some i := by
    intro i hne heq
    rw [hheld] at heq
    exact hne (Option.some.inj heq).symm
  rcases hres with ⟨-, rfl⟩ | ⟨-, rfl⟩
  · refine ⟨?_, nofun, ?_, hinv.known, hinv.failed⟩
    · intro i call hi
      rcases getElem?_goTo hi with ⟨rfl, rfl⟩ | ⟨hne, hold⟩
      · trivial
      · exact (hinv.calls hold).frame (iff_of_false nofun (hother hne)) (fun _ => rfl)
          (fun _ _ h₁ h₂ h₃ => ⟨h₁, h₂, h₃⟩)
    · intro i i' ses₁ ses₂ h₁ h₂
      exact hinv.distinct (h₁.of_goTo rfl rfl) (h₂.of_goTo rfl rfl)
  · have hsub : ∀ e ∈ HashTable.eraseFound (EndPoint.hash hashString) EndPoint.eq s.sessions
        remote, e ∈ s.sessions := fun e he =>
      (HashTable.perm_eraseFound hfind).mem_iff.mpr (List.mem_cons_of_mem _ he)
    refine ⟨?_, ?_, ?_, fun e he => hinv.known e (hsub e he), ?_⟩
    · intro i call hi
      rcases getElem?_goTo hi with ⟨rfl, rfl⟩ | ⟨hne, hold⟩
      · trivial
      · refine (hinv.calls hold).frame Iff.rfl (fun heq => absurd heq (hother hne)) ?_
        rintro ses' - hmade hfailed hnew
        have hne : ses'.ref ≠ ses.ref := (hnew _ hmem).symm
        exact ⟨hmade, List.not_mem_append hfailed (by simpa using hne),
          fun e he => hnew e (hsub e he)⟩
    · intro i hi
      change i < (s.calls.set c _).length
      rw [List.length_set]
      exact hinv.holder i hi
    · intro i i' ses₁ ses₂ h₁ h₂
      exact hinv.distinct (h₁.of_goTo rfl rfl) (h₂.of_goTo rfl rfl)
    · intro r hr
      rcases List.mem_append.mp hr with hold | hnew
      · exact hinv.failed r hold
      · rw [List.mem_singleton.mp hnew]
        exact hinv.known _ hmem

/-- The invariant, after a dial. -/
theorem Inv.dial {c : ℕ} {result : Option (ℕ × Bool)} (hinv : Inv hashString s)
    (h : dial s c result = some s') : Inv hashString s' := by
  obtain ⟨remote, hcall, hres⟩ := dial_cases h
  have hfree : s.mutex ≠ some c := hinv.calls hcall
  have hholder : ∀ {pc : Pc}, ∀ i, s.mutex = some i → i < (s.goTo c remote pc).calls.length := by
    intro pc i hi
    rw [State.goTo, List.length_set]
    exact hinv.holder i hi
  rcases hres with rfl | ⟨ref, hnew, rfl | rfl⟩
  · refine ⟨?_, hholder, ?_, hinv.known, hinv.failed⟩
    · intro i call hi
      rcases getElem?_goTo hi with ⟨rfl, rfl⟩ | ⟨hne, hold⟩
      · trivial
      · exact hinv.calls hold
    · intro i i' ses₁ ses₂ h₁ h₂
      exact hinv.distinct (h₁.of_goTo rfl rfl) (h₂.of_goTo rfl rfl)
  · refine ⟨?_, hholder, ?_, fun e he => List.mem_append_left _ (hinv.known e he),
      fun r hr => List.mem_append_left _ (hinv.failed r hr)⟩
    · intro i call hi
      rcases getElem?_goTo hi with ⟨rfl, rfl⟩ | ⟨hne, hold⟩
      · refine ⟨hfree, List.mem_append_right _ (List.mem_singleton_self ref),
          fun hmem => hnew (hinv.failed _ hmem), ?_⟩
        rintro e he rfl
        exact hnew (hinv.known e he)
      · exact (hinv.calls hold).frame Iff.rfl (fun _ => rfl)
          (fun _ _ h₁ h₂ h₃ => ⟨List.mem_append_left _ h₁, h₂, h₃⟩)
    · -- the new session is not among those that wait already
      have hmade : ∀ {i : ℕ} {ses : SessionRef}, Registers s i ses → ses.ref ∈ s.made := by
        rintro i ses ⟨r, hi⟩
        exact (hinv.calls hi).2.1
      rintro i i' ses₁ ses₂ ⟨r₁, h₁⟩ ⟨r₂, h₂⟩ heq
      rcases getElem?_goTo h₁ with ⟨rfl, hnew₁⟩ | ⟨-, hold₁⟩
      · rcases getElem?_goTo h₂ with ⟨rfl, -⟩ | ⟨-, hold₂⟩
        · rfl
        · obtain ⟨-, hpc⟩ := Call.mk.inj hnew₁
          have hold : ses₂.ref ∈ s.made := hmade ⟨r₂, hold₂⟩
          rw [← heq, Pc.registering.inj hpc] at hold
          exact absurd hold hnew
      · rcases getElem?_goTo h₂ with ⟨rfl, hnew₂⟩ | ⟨-, hold₂⟩
        · obtain ⟨-, hpc⟩ := Call.mk.inj hnew₂
          have hold : ses₁.ref ∈ s.made := hmade ⟨r₁, hold₁⟩
          rw [heq, Pc.registering.inj hpc] at hold
          exact absurd hold hnew
        · exact hinv.distinct ⟨r₁, hold₁⟩ ⟨r₂, hold₂⟩ heq
  · refine ⟨?_, hholder, ?_, fun e he => List.mem_append_left _ (hinv.known e he), ?_⟩
    · intro i call hi
      rcases getElem?_goTo hi with ⟨rfl, rfl⟩ | ⟨hne, hold⟩
      · trivial
      · refine (hinv.calls hold).frame Iff.rfl (fun _ => rfl) ?_
        rintro ses' - hmade hfailed hother
        have hne : ses'.ref ≠ ref := by
          rintro rfl
          exact hnew hmade
        exact ⟨List.mem_append_left _ hmade, List.not_mem_append hfailed (by simpa using hne),
          hother⟩
    · intro i i' ses₁ ses₂ h₁ h₂
      exact hinv.distinct (h₁.of_goTo rfl rfl) (h₂.of_goTo rfl rfl)
    · intro r hr
      rcases List.mem_append.mp hr with hold | hlast
      · exact List.mem_append_left _ (hinv.failed r hold)
      · exact List.mem_append_right _ hlast

/-- The invariant, after the registration. -/
theorem Inv.emplace {c : ℕ} {order : List (EndPoint × SessionRef)} (hinv : Inv hashString s)
    (h : emplace hashString s c order = some s') : Inv hashString s' := by
  obtain ⟨remote, ses, hcall, hfree, hres⟩ := emplace_cases h
  obtain ⟨-, hmade, -, -⟩ := hinv.calls hcall
  have hholder : ∀ {s'' : State}, s''.mutex = s.mutex → ∀ i, s''.mutex = some i →
      i < s''.calls.length := by
    intro s'' hmutex i hi
    rw [hmutex, hfree] at hi
    cases hi
  rcases hres with rfl | ⟨hperm, rfl⟩
  · refine ⟨?_, hholder rfl, ?_, hinv.known, hinv.failed⟩
    · intro i call hi
      rcases getElem?_goTo hi with ⟨rfl, rfl⟩ | ⟨hne, hold⟩
      · trivial
      · exact hinv.calls hold
    · intro i i' ses₁ ses₂ h₁ h₂
      exact hinv.distinct (h₁.of_goTo rfl rfl) (h₂.of_goTo rfl rfl)
  · refine ⟨?_, hholder rfl, ?_, ?_, hinv.failed⟩
    · intro i call hi
      rcases getElem?_goTo hi with ⟨rfl, rfl⟩ | ⟨hne, hold⟩
      · trivial
      · refine (hinv.calls hold).frame Iff.rfl ?_ ?_
        · intro hheld
          rw [hfree] at hheld
          cases hheld
        · intro ses' hpc hmade' hfailed hnew
          refine ⟨hmade', hfailed, ?_⟩
          intro e he
          rcases List.mem_cons.mp (hperm.mem_iff.mp he) with rfl | hold'
          · intro heq
            obtain ⟨r, pc⟩ := call
            obtain rfl : pc = .registering ses' := hpc
            exact hne (hinv.distinct ⟨r, hold⟩ ⟨remote, hcall⟩ heq.symm)
          · exact hnew e hold'
    · intro i i' ses₁ ses₂ h₁ h₂
      exact hinv.distinct (h₁.of_goTo rfl rfl) (h₂.of_goTo rfl rfl)
    · intro e he
      rcases List.mem_cons.mp (hperm.mem_iff.mp he) with rfl | hold
      · exact hmade
      · exact hinv.known e hold

/-- **Every step keeps the invariant.** -/
theorem Inv.step {a : Action} (hinv : Inv hashString s) (h : step hashString s a = some s') :
    Inv hashString s' := by
  cases a with
  | enter remote => exact hinv.enter h
  | openCached c ok => exact hinv.openCached h
  | dial c result => exact hinv.dial h
  | emplace c order => exact hinv.emplace h

/-! ### The sessions that have failed -/

/-- A dial fails none of the sessions in the cache. -/
theorem NoneFailed.dial {c : ℕ} {result : Option (ℕ × Bool)} (hnone : NoneFailed s)
    (hinv : Inv hashString s) (h : dial s c result = some s') : NoneFailed s' := by
  obtain ⟨remote, -, rfl | ⟨ref, hnew, rfl | rfl⟩⟩ := dial_cases h
  · exact hnone
  · exact hnone
  · intro e he hfailed
    rcases List.mem_append.mp hfailed with hold | hlast
    · exact hnone e he hold
    · rw [List.mem_singleton] at hlast
      exact hnew (hlast ▸ hinv.known e he)

/-- A session that is registered has not failed. -/
theorem NoneFailed.emplace {c : ℕ} {order : List (EndPoint × SessionRef)} (hnone : NoneFailed s)
    (hinv : Inv hashString s) (h : emplace hashString s c order = some s') : NoneFailed s' := by
  obtain ⟨remote, ses, hcall, -, rfl | ⟨hperm, rfl⟩⟩ := emplace_cases h
  · exact hnone
  · obtain ⟨-, -, hfailed, -⟩ := hinv.calls hcall
    intro e he
    rcases List.mem_cons.mp (hperm.mem_iff.mp he) with rfl | hold
    · exact hfailed
    · exact hnone e hold

/-- The registered sessions are different ones, and none of them has failed. -/
structure Sound (s : State) : Prop where
  nodup : (s.sessions.map fun e => e.2.ref).Nodup
  noneFailed : NoneFailed s

/-- Sessions stay sound over a stream on a cached one. -/
theorem Sound.openCached {c : ℕ} {ok : Bool} (hsound : Sound s) (hinv : Inv hashString s)
    (h : openCached hashString s c ok = some s') : Sound s' := by
  obtain ⟨remote, ses, hcall, hres⟩ := openCached_cases h
  rcases hres with ⟨-, rfl⟩ | ⟨-, rfl⟩
  · exact ⟨hsound.nodup, hsound.noneFailed⟩
  · obtain ⟨-, k, hfind⟩ := hinv.calls hcall
    have hperm := HashTable.perm_eraseFound hfind
    have hnodup := (hperm.map fun e => e.2.ref).nodup_iff.mp hsound.nodup
    rw [List.map_cons, List.nodup_cons] at hnodup
    refine ⟨hnodup.2, ?_⟩
    intro e he hfailed
    rcases List.mem_append.mp hfailed with hold | hnew
    · exact hsound.noneFailed e (hperm.mem_iff.mpr (List.mem_cons_of_mem _ he)) hold
    · -- the session that has failed is the one that was erased
      rw [List.mem_singleton] at hnew
      exact hnodup.1 (hnew ▸ List.mem_map_of_mem he)

/-- Sessions stay sound when one is registered. -/
theorem Sound.emplace {c : ℕ} {order : List (EndPoint × SessionRef)} (hsound : Sound s)
    (hinv : Inv hashString s) (h : emplace hashString s c order = some s') : Sound s' := by
  refine ⟨?_, hsound.noneFailed.emplace hinv h⟩
  obtain ⟨remote, ses, hcall, -, rfl | ⟨hperm, rfl⟩⟩ := emplace_cases h
  · exact hsound.nodup
  · obtain ⟨-, -, -, hnew⟩ := hinv.calls hcall
    refine (hperm.map fun e => e.2.ref).nodup_iff.mpr ?_
    rw [List.map_cons, List.nodup_cons]
    refine ⟨?_, hsound.nodup⟩
    intro hmem
    obtain ⟨e, he, heq⟩ := List.mem_map.mp hmem
    exact hnew e he heq

/-- **No session that has failed is registered**, in no run. -/
theorem no_failed_session {sessions : List (EndPoint × SessionRef)}
    (hnodup : (sessions.map fun e => e.2.ref).Nodup)
    (h : Reach (step hashString) always (.init sessions) s) :
    NoneFailed s := by
  have hall : Inv hashString s ∧ Sound s := by
    refine h.invariant (fun s => Inv hashString s ∧ Sound s)
      ⟨inv_init sessions, hnodup, fun _ _ => nofun⟩ ?_
    rintro s s' a ⟨hinv, hsound⟩ - hs
    refine ⟨hinv.step hs, ?_⟩
    cases a with
    | enter remote =>
        obtain ⟨-, ⟨-, rfl⟩ | ⟨k, ses, -, rfl⟩⟩ := enter_cases hs
        · exact ⟨hsound.nodup, hsound.noneFailed⟩
        · exact ⟨hsound.nodup, hsound.noneFailed⟩
    | openCached c ok => exact hsound.openCached hinv hs
    | dial c result =>
        refine ⟨?_, hsound.noneFailed.dial hinv hs⟩
        obtain ⟨remote, -, rfl | ⟨ref, -, rfl | rfl⟩⟩ := dial_cases hs
        all_goals exact hsound.nodup
    | emplace c order => exact hsound.emplace hinv hs
  exact hall.2.noneFailed

/-! ### The mutex -/

/-- A call that has returned is not inside `open_stream`. -/
theorem Inv.not_opening {c : ℕ} {remote : EndPoint} {ses : SessionRef} (hinv : Inv hashString s)
    (hcall : s.calls[c]? = some ⟨remote, .opening ses⟩) {i : ℕ} (hreturned : Returned s i) :
    s.mutex ≠ some i := by
  obtain ⟨r, stream, hi⟩ := hreturned
  intro hheld
  obtain rfl : c = i := Option.some.inj ((hinv.calls hcall).1.symm.trans hheld)
  rw [hcall] at hi
  cases hi

/-- A call that goes on without returning leaves the calls that have returned. -/
theorem Returned.of_goTo {c i : ℕ} {remote : EndPoint} {pc : Pc} (hne : i ≠ c)
    (hcalls : s'.calls = (s.goTo c remote pc).calls) : Returned s' i ↔ Returned s i := by
  simp only [Returned, hcalls, getElem?_goTo_of_ne hne]

/-- A call that does not hold the mutex changes nothing about who has returned with it. -/
theorem mutex_goTo {c : ℕ} {remote : EndPoint} {pc : Pc} (hfree : s.mutex ≠ some c)
    (hcalls : s'.calls = (s.goTo c remote pc).calls) (hmutex : s'.mutex = s.mutex) :
    (∀ i, Returned s' i → s'.mutex ≠ some i) ↔ ∀ i, Returned s i → s.mutex ≠ some i := by
  rw [hmutex]
  refine forall_congr' fun i => ?_
  by_cases hi : i = c
  · subst hi
    exact iff_of_true (fun _ => hfree) (fun _ => hfree)
  · exact imp_congr_left (Returned.of_goTo hi hcalls)

/-- Dialling leaves the mutex and the sessions alone. -/
theorem dial_frame {c : ℕ} {result : Option (ℕ × Bool)} (h : dial s c result = some s') :
    ∃ remote pc, s.calls[c]? = some ⟨remote, .dialing⟩ ∧
      s'.calls = (s.goTo c remote pc).calls ∧ s'.mutex = s.mutex ∧ s'.sessions = s.sessions ∧
      s.failed ⊆ s'.failed := by
  obtain ⟨remote, hcall, rfl | ⟨ref, -, rfl | rfl⟩⟩ := dial_cases h
  · exact ⟨remote, _, hcall, rfl, rfl, rfl, List.Subset.refl _⟩
  · exact ⟨remote, _, hcall, rfl, rfl, rfl, List.Subset.refl _⟩
  · exact ⟨remote, _, hcall, rfl, rfl, rfl, List.subset_append_left _ _⟩

/-- The registration is made between taking and releasing the mutex. -/
theorem emplace_frame {c : ℕ} {order : List (EndPoint × SessionRef)}
    (h : emplace hashString s c order = some s') :
    s.mutex = none ∧ s'.mutex = none ∧ s.sessions ⊆ s'.sessions ∧ s'.failed = s.failed := by
  obtain ⟨remote, ses, -, hfree, rfl | ⟨hperm, rfl⟩⟩ := emplace_cases h
  · exact ⟨hfree, hfree, List.Subset.refl _, rfl⟩
  · exact ⟨hfree, hfree, fun e he => hperm.mem_iff.mpr (List.mem_cons_of_mem _ he), rfl⟩

/-- While the mutex is free, no call holds it that has returned. -/
theorem released_iff_of_free (hfree : s.mutex = none) : Released s ↔ NoneFailed s := by
  constructor
  · exact Released.noneFailed
  · intro hnone
    refine ⟨?_, hnone⟩
    intro c _
    rw [hfree]
    exact nofun

/-- **A step keeps what is asked exactly if no cached session refuses at it.** -/
theorem released_step {a : Action} (hinv : Inv hashString s)
    (h : step hashString s a = some s') :
    Released s' ↔ Released s ∧ noRefusal s a = true := by
  cases a with
  | enter remote =>
      rw [noRefusal, and_iff_left rfl]
      obtain ⟨hfree, ⟨-, rfl⟩ | ⟨k, ses, -, rfl⟩⟩ := enter_cases h
      · rw [released_iff_of_free hfree]
        exact released_iff_of_free hfree
      · rw [released_iff_of_free hfree]
        constructor
        · exact Released.noneFailed
        · intro hnone
          refine ⟨?_, hnone⟩
          rintro c ⟨r, stream, hc⟩ hheld
          obtain rfl := Option.some.inj hheld
          rcases getElem?_concat hc with hold | ⟨-, hnew⟩
          · obtain ⟨hlt, -⟩ := List.getElem?_eq_some_iff.mp hold
            exact Nat.lt_irrefl _ hlt
          · cases hnew
  | openCached c ok =>
      obtain ⟨remote, ses, hcall, ⟨rfl, rfl⟩ | ⟨rfl, rfl⟩⟩ := openCached_cases h
      · rw [noRefusal, and_iff_left rfl]
        constructor
        · intro hgood
          exact ⟨fun i hi => hinv.not_opening hcall hi, hgood.noneFailed⟩
        · intro hgood
          exact ⟨fun i _ => nofun, hgood.noneFailed⟩
      · refine iff_of_false ?_ (fun hgood => absurd hgood.2 Bool.false_ne_true)
        intro hgood
        refine hgood.mutex c ⟨remote, none, getElem?_goTo_self hcall⟩ ?_
        exact (hinv.calls hcall).1
  | dial c result =>
      rw [noRefusal, and_iff_left rfl]
      obtain ⟨remote, pc, hcall, hcalls, hmutex, hsessions, hfailed⟩ := dial_frame h
      have hreturned := mutex_goTo (hinv.calls hcall) hcalls hmutex
      constructor
      · intro hgood
        refine ⟨hreturned.mp hgood.mutex, fun e he hmem => ?_⟩
        exact hgood.noneFailed e (hsessions ▸ he) (hfailed hmem)
      · intro hgood
        exact ⟨hreturned.mpr hgood.mutex, hgood.noneFailed.dial hinv h⟩
  | emplace c order =>
      rw [noRefusal, and_iff_left rfl]
      obtain ⟨hfree, hfree', hsessions, hfailed⟩ := emplace_frame h
      rw [released_iff_of_free hfree, released_iff_of_free hfree']
      constructor
      · intro hnone e he
        rw [← hfailed]
        exact hnone e (hsessions he)
      · intro hnone
        exact hnone.emplace hinv h

/-- A refusal of a cached session leaves the mutex with a call that has returned. -/
theorem refusal_holds {c : ℕ} (hinv : Inv hashString s)
    (h : openCached hashString s c false = some s') :
    s'.mutex = some c ∧ ∃ remote, s'.calls[c]? = some ⟨remote, .returned none⟩ := by
  obtain ⟨remote, ses, hcall, ⟨hok, -⟩ | ⟨-, rfl⟩⟩ := openCached_cases h
  · cases hok
  · obtain ⟨hheld, -⟩ := hinv.calls hcall
    exact ⟨hheld, remote, getElem?_goTo_self hcall⟩

/-- **The mutex is held for good** once a call has returned with it: no call gets past it, and
the sessions stay as they are. -/
theorem held_for_good {c : ℕ} {remote : EndPoint} {stream : Option SessionRef} {a : Action}
    (hinv : Inv hashString s) (hheld : s.mutex = some c)
    (hreturned : s.calls[c]? = some ⟨remote, .returned stream⟩)
    (h : step hashString s a = some s') :
    s'.mutex = some c ∧ s'.calls[c]? = some ⟨remote, .returned stream⟩ ∧
      s'.sessions = s.sessions := by
  cases a with
  | enter remote' =>
      obtain ⟨hfree, -⟩ := enter_cases h
      rw [hheld] at hfree
      cases hfree
  | openCached i ok =>
      obtain ⟨remote', ses, hcall, -⟩ := openCached_cases h
      have hopen := (hinv.calls hcall).1
      rw [hheld] at hopen
      obtain rfl := Option.some.inj hopen
      rw [hreturned] at hcall
      cases hcall
  | dial i result =>
      obtain ⟨remote', hcall, hres⟩ := dial_cases h
      have hne : c ≠ i := by
        rintro rfl
        rw [hreturned] at hcall
        cases hcall
      rcases hres with rfl | ⟨ref, -, rfl | rfl⟩
      all_goals exact ⟨hheld, (getElem?_goTo_of_ne hne).trans hreturned, rfl⟩
  | emplace i order =>
      obtain ⟨remote', ses, -, hfree, -⟩ := emplace_cases h
      rw [hheld] at hfree
      cases hfree

/-! ### Runs -/

/-- **`connect` keeps its promises exactly if no cached session refuses a stream.** For any
sessions to begin with and any steps of any number of calls: every call that has returned has
released the mutex, and no session that has failed is registered, exactly if no step is a refusal
of a cached session. Dialling that fails and new sessions that refuse do no harm. -/
theorem connect_releases_iff (hashString : List UInt8 → UInt64)
    (sessions : List (EndPoint × SessionRef)) (as : List Action) (s : State)
    (h : exec (step hashString) (.init sessions) as = some s) :
    Released s ↔ execIf (step hashString) noRefusal (.init sessions) as = some s := by
  have hgood : Released (.init sessions) := by
    refine ⟨?_, fun _ _ => nofun⟩
    rintro c ⟨remote, stream, hc⟩
    cases hc
  exact good_iff_execIf Inv.step released_step (inv_init sessions) hgood h

/-- One call opens the first session to an endpoint, and a second finds nobody at another. -/
def freshRun : List Action :=
  [.enter (loopback 31 144), .enter (loopback 31 145), .dial 0 (some (7, true)), .dial 1 none,
    .emplace 0 [(loopback 31 144, ⟨7, (loopback 31 144).sockAddr⟩)]]

/-- The client after that. -/
def afterFreshRun : State where
  sessions := [(loopback 31 144, ⟨7, (loopback 31 144).sockAddr⟩)]
  calls := [⟨loopback 31 144, .returned (some ⟨7, (loopback 31 144).sockAddr⟩)⟩,
    ⟨loopback 31 145, .returned none⟩]
  made := [7]

theorem fresh_calls_release : Released afterFreshRun :=
  (connect_releases_iff checksum [] freshRun afterFreshRun (by decide +kernel)).mpr
    (by decide +kernel)

/-! ### Refusals happen -/

/-- A look-up, and the refusal of the session that it finds. -/
def refusalRun (remote : EndPoint) : List Action := [.enter remote, .openCached 0 false]

/-- A session that is found and refuses **keeps the mutex from all later calls**. It is found for
an endpoint with the same hash and another address, as these are what the table's tests ask. -/
theorem refusal_of_collision {known remote : EndPoint}
    (hhash : known.hash hashString = remote.hash hashString)
    (hne : remote.sockAddr ≠ known.sockAddr) (ref : ℕ) :
    ∃ s, exec (step hashString) (.init [(known, ⟨ref, known.sockAddr⟩)]) (refusalRun remote) =
        some s ∧ s.calls = [⟨remote, .returned none⟩] ∧ s.mutex = some 0 ∧ ¬ Released s := by
  have hhits : HashTable.hits (EndPoint.hash hashString) EndPoint.eq remote
      (known, (⟨ref, known.sockAddr⟩ : SessionRef)) = true :=
    HashTable.hits_iff.mpr ⟨hhash, EndPoint.eq_iff.mpr hne⟩
  have hfind : State.find hashString (.init [(known, ⟨ref, known.sockAddr⟩)]) remote =
      some (known, ⟨ref, known.sockAddr⟩) := by
    rw [State.find, HashTable.find?]
    exact List.find?_cons_of_pos hhits
  let left := HashTable.eraseFound (EndPoint.hash hashString) EndPoint.eq
    [(known, (⟨ref, known.sockAddr⟩ : SessionRef))] remote
  refine ⟨⟨left, some 0, [⟨remote, .returned none⟩], [ref], [ref]⟩, ?_, rfl, rfl, ?_⟩
  · have henter : enter hashString (.init [(known, ⟨ref, known.sockAddr⟩)]) remote =
        some { State.init [(known, ⟨ref, known.sockAddr⟩)] with
          mutex := some 0, calls := [⟨remote, .opening ⟨ref, known.sockAddr⟩⟩] } := by
      rw [enter, hfind]
      rfl
    rw [refusalRun, exec, step, henter]
    rfl
  · intro hgood
    exact hgood.mutex 0 ⟨remote, none, rfl⟩ rfl

/-- The address of a TCP endpoint over IPv6, port 8080. -/
def ipv6 (n : ℕ) : SockAddr where
  bytes := [10, 0, 31, 144, 0, 0, 0, 0] ++ Bytes.beBytes 16 n ++ List.replicate 104 0
  size := by simp

/-- Different numbers are different addresses. -/
theorem ipv6_injOn {m n : ℕ} (hm : m < 256 ^ 16) (hn : n < 256 ^ 16) (h : ipv6 m = ipv6 n) :
    m = n := by
  have hbytes := (SockAddr.ext_iff.mp h)
  simp only [ipv6, List.append_cancel_left_eq, List.append_cancel_right_eq] at hbytes
  have hval := congrArg Bytes.beVal hbytes
  rwa [Bytes.beVal_beBytes, Bytes.beVal_beBytes, Nat.mod_eq_of_lt hm, Nat.mod_eq_of_lt hn] at hval

/-- **Every hash of 64 bits has endpoints for which the failure happens**: there are more
addresses than hashes. -/
theorem refusal_possible (hashString : List UInt8 → UInt64) :
    ∃ known remote : EndPoint, ∃ s,
      exec (step hashString) (.init [(known, ⟨7, known.sockAddr⟩)]) (refusalRun remote) =
        some s ∧ s.mutex = some 0 ∧ ¬ Released s := by
  let hash (i : Fin (2 ^ 64 + 1)) : Fin (2 ^ 64) := (hashString (ipv6 i.1).bytes).toFin
  have hcard : Fintype.card (Fin (2 ^ 64)) < Fintype.card (Fin (2 ^ 64 + 1)) := by
    rw [Fintype.card_fin, Fintype.card_fin]
    exact Nat.lt_succ_self _
  obtain ⟨i, j, hij, hhash⟩ := Fintype.exists_ne_map_eq_of_card_lt hash hcard
  have hne : ipv6 j.1 ≠ ipv6 i.1 := by
    intro heq
    have hi := i.2
    have hj := j.2
    exact hij (Fin.ext (ipv6_injOn (by omega) (by omega) heq.symm))
  obtain ⟨s, hs, -, hheld, hbad⟩ := @refusal_of_collision hashString ⟨ipv6 i.1⟩ ⟨ipv6 j.1⟩
    (UInt64.toFin_inj.mp hhash) hne 7
  exact ⟨_, _, s, hs, hheld, hbad⟩

/-- **The mutex is not released** when the session that a look-up has found refuses. -/
theorem cached_refusal_keeps_mutex :
    ∃ s, exec (step checksum) (.init [(loopback 1 31, ⟨7, (loopback 1 31).sockAddr⟩)])
        (refusalRun (loopback 2 0)) = some s ∧
      s.calls = [⟨loopback 2 0, .returned none⟩] ∧ s.mutex = some 0 ∧ ¬ Released s :=
  refusal_of_collision (by decide +kernel) (by decide +kernel) 7

end ArchNet.ClientMutex

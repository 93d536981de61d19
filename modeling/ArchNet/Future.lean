import ArchNet.Lts
import Mathlib.Data.List.Basic

/-!
# Promises and Futures

A `Promise` and its futures share one `SharedState`: a status, a result, a value, the
continuations registered so far, and the mutex that guards them. `then` and `thenVoid`
create a further promise, which a task of the worker pool completes after the first.

## Conventions

* The heap of shared states is a list; a handle — any copy of a promise, any of its futures —
  is an index into it. The run starts with one promise; `then` and `thenVoid` append.
* A critical section is one step, enabled while the mutex is free. A call that returns
  without unlocking leaves the mutex taken for good (`locked`).
* A waiter in `get` gives the mutex up. It runs again at a wake-up, which may come at any
  time, and re-checks the status (`wake`); a timed wait may instead end by its deadline,
  which is known to it only once it has the mutex back (`expire`).
* A task of the pool reads the first state without its mutex, so its reads and its critical
  sections are separate steps. What a callback returns is chosen by the run.

## Main results

* `step_evolves`: **what one step does to each shared state** — nothing to its outcome, the
  completion of a pending one, or a timeout.
* `done_is_final`: in every run in which no timeout hits a state that is already done, **a
  completed state keeps its result and value**; in every run at all, at most one `setValue`
  call per state returns true.
-/

open Lts

namespace ArchNet.Future

/-- `FutureStatus`. -/
inductive FutureStatus
  | none
  | timeout
  | done
  deriving DecidableEq, Repr

/-- Which of the two continuation calls registered a task. -/
inductive Continuation
  | andThen
  | thenVoid
  deriving DecidableEq, Repr

/-- What `ExecuteTask` is called with: the new promise, the state it follows, the kind. -/
structure Task where
  promise : ℕ
  state : ℕ
  kind : Continuation
  deriving DecidableEq, Repr

/-- `SharedState`, with its mutex. -/
structure SharedState (R V : Type) where
  result : R
  value : V
  status : FutureStatus
  thenCallback : List Task
  locked : Bool
  deriving DecidableEq, Repr

/-- Where a task of the pool is. -/
inductive TaskPc (R V : Type)
  /-- Before its read of the first state's status. -/
  | start
  /-- That status was a timeout: before `promise.setTimeout()`. -/
  | timingOut
  /-- It was not: before `promise.isTimeout()`. -/
  | checking
  /-- Before the callback. -/
  | calling
  /-- A `thenVoid` callback has returned: before the read of what is passed on. -/
  | returned
  /-- Before `promise.setValue(r, v)`. -/
  | setting (r : R) (v : V)
  deriving DecidableEq, Repr

/-- A thread that waits inside `get`. -/
structure Waiter where
  state : ℕ
  timed : Bool
  deriving DecidableEq, Repr

/-- What the calls have returned. -/
inductive Returned (R V : Type)
  | setValue (p : ℕ) (accepted : Bool)
  | get (p : ℕ) (r : R) (v : V)
  | timedGet (p : ℕ) (outcome : Option (R × V))
  deriving DecidableEq, Repr

/-- The shared states, the pool's tasks, the waiting threads and the history of returns. -/
structure System (R V : Type) where
  heap : List (SharedState R V)
  tasks : List (Task × TaskPc R V)
  waiters : List Waiter
  returns : List (Returned R V)
  deriving DecidableEq, Repr

/-- The steps of the system. -/
inductive Action (R V : Type)
  | setValue (p : ℕ) (r : R) (v : V)
  | setTimeout (p : ℕ)
  | get (p : ℕ) (timed : Bool)
  /-- The `i`-th waiter is woken and has the mutex again. -/
  | wake (i : ℕ)
  /-- The `i`-th waiter's deadline has passed and it has the mutex again. -/
  | expire (i : ℕ)
  | continueWith (p : ℕ) (kind : Continuation)
  /-- The next step of the `i`-th task; `r` and `v` are what its callback returns. -/
  | task (i : ℕ) (r : R) (v : V)
  deriving DecidableEq, Repr

variable {R V : Type}

section Code

variable [Inhabited R] [Inhabited V]

/-- `std::make_shared<SharedState>()`: value-initialisation makes the status `None`. -/
def SharedState.fresh : SharedState R V := ⟨default, default, .none, [], false⟩

/-- The critical section of `setValue`: the state, the continuations to run, the result. -/
def SharedState.setValue (st : SharedState R V) (r : R) (v : V) :
    SharedState R V × List Task × Bool :=
  if st.status ≠ .none then
    -- returns inside the critical section
    ({ st with locked := true }, [], false)
  else
    ({ st with value := v, result := r, status := .done, thenCallback := [] },
      st.thenCallback, true)

/-- The critical section of `setTimeout`. -/
def SharedState.setTimeout (st : SharedState R V) : SharedState R V :=
  { st with value := default, result := default, status := .timeout }

namespace System

/-- The shared state behind a handle, while its mutex is free. -/
def acquire (s : System R V) (p : ℕ) : Option (SharedState R V) :=
  (s.heap[p]?).filter fun st => !st.locked

/-- The heap with one state replaced. -/
def put (s : System R V) (p : ℕ) (st : SharedState R V) : System R V :=
  { s with heap := s.heap.set p st }

/-- `setValue`: the continuations that were registered become tasks of the pool. -/
def setValue (s : System R V) (p : ℕ) (r : R) (v : V) : Option (System R V) := do
  let st ← s.acquire p
  let (st', tasks, accepted) := st.setValue r v
  return { s.put p st' with
    tasks := s.tasks ++ tasks.map fun t => (t, .start)
    returns := .setValue p accepted :: s.returns }

/-- `setTimeout`. -/
def setTimeout (s : System R V) (p : ℕ) : Option (System R V) := do
  let st ← s.acquire p
  return s.put p st.setTimeout

/-- The end of `get`, with the mutex, once the status is no longer `None`. -/
def finishGet (s : System R V) (p : ℕ) (timed : Bool) (st : SharedState R V) : System R V :=
  let returned :=
    if timed then
      .timedGet p (if st.status = .timeout then Option.none else some (st.result, st.value))
    else
      .get p st.result st.value
  { s with returns := returned :: s.returns }

/-- The entry of `get`. -/
def get (s : System R V) (p : ℕ) (timed : Bool) : Option (System R V) := do
  let st ← s.acquire p
  if st.status = .none then
    return { s with waiters := s.waiters ++ [⟨p, timed⟩] }
  else
    return s.finishGet p timed st

/-- A waiter's wake-up: it re-checks the status. -/
def wake (s : System R V) (i : ℕ) : Option (System R V) := do
  let w ← s.waiters[i]?
  let st ← s.acquire w.state
  if st.status = .none then
    return s
  else
    return { s with waiters := s.waiters.eraseIdx i }.finishGet w.state w.timed st

/-- The end of a timed wait by its deadline: `get` sets the status without re-checking it. -/
def expire (s : System R V) (i : ℕ) : Option (System R V) := do
  let w ← s.waiters[i]?
  if w.timed then
    let st ← s.acquire w.state
    return { s.put w.state { st with status := .timeout } with
      waiters := s.waiters.eraseIdx i
      returns := .timedGet w.state Option.none :: s.returns }
  else
    Option.none

/-- `then` and `thenVoid`: the new promise follows the state, by a task of the pool, by a
timeout of its own, or by a registered continuation. -/
def continueWith (s : System R V) (p : ℕ) (kind : Continuation) : Option (System R V) := do
  let st ← s.acquire p
  let task : Task := ⟨s.heap.length, p, kind⟩
  match st.status with
  | .done => return { s with heap := s.heap ++ [.fresh], tasks := s.tasks ++ [(task, .start)] }
  | .timeout => return { s with heap := s.heap ++ [SharedState.fresh.setTimeout] }
  | .none =>
      let st' := { st with thenCallback := st.thenCallback ++ [task] }
      return { s with heap := s.heap.set p st' ++ [.fresh] }

/-- The `i`-th task moves on. -/
def advance (s : System R V) (i : ℕ) (t : Task) (pc : TaskPc R V) : System R V :=
  { s with tasks := s.tasks.set i (t, pc) }

/-- The `i`-th task ends. -/
def endTask (s : System R V) (i : ℕ) : System R V := { s with tasks := s.tasks.eraseIdx i }

/-- One step of a task, as `ExecuteTask` has it. -/
def runTask (s : System R V) (i : ℕ) (r : R) (v : V) : Option (System R V) := do
  let (t, pc) ← s.tasks[i]?
  match pc with
  | .start =>
      let st ← s.heap[t.state]?
      return s.advance i t (if st.status = .timeout then .timingOut else .checking)
  | .timingOut => return (← s.setTimeout t.promise).endTask i
  | .checking =>
      let st ← s.acquire t.promise
      return if st.status = .timeout then s.endTask i else s.advance i t .calling
  | .calling =>
      return s.advance i t (if t.kind = .andThen then .setting r v else .returned)
  | .returned =>
      let st ← s.heap[t.state]?
      return s.advance i t (.setting st.result st.value)
  | .setting r v => return (← s.setValue t.promise r v).endTask i

end System

/-- One step of the system. -/
def step (s : System R V) : Action R V → Option (System R V)
  | .setValue p r v => s.setValue p r v
  | .setTimeout p => s.setTimeout p
  | .get p timed => s.get p timed
  | .wake i => s.wake i
  | .expire i => s.expire i
  | .continueWith p kind => s.continueWith p kind
  | .task i r v => s.runTask i r v

/-- The system with one fresh promise. -/
def init : System R V := ⟨[.fresh], [], [], []⟩

end Code

/-! ### What a step does to the shared states -/

/-- The number of `setValue` calls on a state that have returned true. -/
def accepted (s : System R V) (p : ℕ) : ℕ :=
  s.returns.countP fun
    | .setValue q b => q == p && b
    | _ => false

/-- The state that a step **times out**, if any. -/
def timesOut (s : System R V) : Action R V → Option ℕ
  | .setTimeout p => some p
  | .expire i => (s.waiters[i]?).map Waiter.state
  | .task i _ _ =>
      (s.tasks[i]?).bind fun t => if t.2 matches .timingOut then some t.1.promise else none
  | .setValue _ _ _ | .get _ _ | .wake _ | .continueWith _ _ => none

/-- The outcome of a state stays as it is. -/
structure Kept (st st' : SharedState R V) : Prop where
  status : st'.status = st.status
  result : st'.result = st.result
  value : st'.value = st.value

/-- What a step does to one state: **keeps** its outcome, **completes** a pending one — a
`setValue` call that returns true — or **times it out**. -/
inductive Change (s s' : System R V) (a : Action R V) (p : ℕ) (st st' : SharedState R V) : Prop
  | keeps (h : Kept st st') (hacc : accepted s' p = accepted s p)
  | completes (hpending : st.status = .none) (hdone : st'.status = .done)
      (hacc : accepted s' p = accepted s p + 1)
  | timesOut (htimeout : st'.status = .timeout) (haction : timesOut s a = some p)
      (hacc : accepted s' p = accepted s p)

/-- Every state is changed in one of these ways, and no call has been accepted by a state
that does not exist. -/
structure Evolves (s : System R V) (a : Action R V) (s' : System R V) : Prop where
  change : ∀ {p : ℕ} {st : SharedState R V}, s.heap[p]? = some st →
    ∃ st', s'.heap[p]? = some st' ∧ Change s s' a p st st'
  absent : ∀ {p : ℕ}, s.heap.length ≤ p → accepted s' p = accepted s p

theorem Kept.refl (st : SharedState R V) : Kept st st := ⟨rfl, rfl, rfl⟩

/-- A step that touches neither the heap nor the accepted calls. -/
theorem evolves_of_heap_eq {s s' : System R V} {a : Action R V} (hheap : s'.heap = s.heap)
    (hacc : ∀ p, accepted s' p = accepted s p) : Evolves s a s' where
  change h := ⟨_, by rw [hheap]; exact h, .keeps (.refl _) (hacc _)⟩
  absent _ := hacc _

/-- A step that replaces one state. -/
theorem evolves_of_heap_set {s s' : System R V} {a : Action R V} {p : ℕ}
    {st st' : SharedState R V} {new : List (SharedState R V)} (hst : s.heap[p]? = some st)
    (hheap : s'.heap = s.heap.set p st' ++ new) (hchange : Change s s' a p st st')
    (hacc : ∀ q, q ≠ p → accepted s' q = accepted s q) : Evolves s a s' where
  change := by
    intro q stq hq
    have hlt : q < (s.heap.set p st').length := by
      rw [List.length_set]
      exact (List.getElem?_eq_some_iff.mp hq).1
    rw [hheap, List.getElem?_append_left hlt]
    rcases eq_or_ne q p with rfl | hne
    · obtain rfl : st = stq := Option.some.inj (hst.symm.trans hq)
      exact ⟨st', List.getElem?_set_self (by rwa [List.length_set] at hlt), hchange⟩
    · refine ⟨stq, ?_, .keeps (.refl _) (hacc q hne)⟩
      rw [List.getElem?_set_ne hne.symm, hq]
  absent := by
    intro q hq
    refine hacc q ?_
    rintro rfl
    have := (List.getElem?_eq_some_iff.mp hst).1
    omega

/-- The mutex is taken only on a state that exists. -/
theorem System.heap_of_acquire {s : System R V} {p : ℕ} {st : SharedState R V}
    (h : s.acquire p = some st) : s.heap[p]? = some st := by
  rw [acquire, Option.filter_eq_some_iff] at h
  exact h.1

/-- A returned `setValue` call counts for its state if it was accepted. -/
theorem accepted_cons_setValue (s : System R V) (heap tasks waiters) (p q : ℕ) (b : Bool) :
    accepted ⟨heap, tasks, waiters, .setValue p b :: s.returns⟩ q =
      accepted s q + if p = q ∧ b = true then 1 else 0 := by
  simp [accepted, List.countP_cons]

/-- `setValue` completes a pending state, and otherwise only takes its mutex. -/
theorem System.setValue_evolves {s s' : System R V} {a : Action R V} {p : ℕ} {r : R} {v : V}
    (h : s.setValue p r v = some s') : Evolves s a s' := by
  simp only [setValue, Option.bind_eq_bind, Option.bind_eq_some_iff, Option.pure_def,
    Option.some.injEq] at h
  obtain ⟨st, hst, rfl⟩ := h
  have hheap := heap_of_acquire hst
  refine evolves_of_heap_set hheap (List.append_nil _).symm ?_ ?_
  · by_cases hpending : st.status = .none
    · refine .completes hpending ?_ ?_
      · simp [SharedState.setValue, hpending]
      · simp [accepted_cons_setValue, SharedState.setValue, hpending]
    · refine .keeps ?_ ?_
      · simp only [SharedState.setValue, ne_eq, hpending, not_false_eq_true, if_true]
        exact ⟨rfl, rfl, rfl⟩
      · simp [accepted_cons_setValue, SharedState.setValue, hpending]
  · intro q hq
    simp [accepted_cons_setValue, hq.symm]

/-- The end of `get` touches no state. -/
theorem System.finishGet_evolves (s : System R V) (a : Action R V) (p : ℕ) (timed : Bool)
    (st : SharedState R V) (waiters : List Waiter) :
    Evolves s a ({ s with waiters }.finishGet p timed st) := by
  refine evolves_of_heap_eq rfl ?_
  intro q
  cases timed <;> simp [accepted, finishGet]

/-- Entering `get` touches no state. -/
theorem System.get_evolves {s s' : System R V} {a : Action R V} {p : ℕ} {timed : Bool}
    (h : s.get p timed = some s') : Evolves s a s' := by
  simp only [get, Option.bind_eq_bind, Option.bind_eq_some_iff] at h
  obtain ⟨st, -, h⟩ := h
  split at h
  · obtain rfl := Option.some.inj h
    exact evolves_of_heap_eq rfl fun _ => rfl
  · obtain rfl := Option.some.inj h
    exact s.finishGet_evolves a p timed st s.waiters

/-- A wake-up touches no state. -/
theorem System.wake_evolves {s s' : System R V} {a : Action R V} {i : ℕ}
    (h : s.wake i = some s') : Evolves s a s' := by
  simp only [wake, Option.bind_eq_bind, Option.bind_eq_some_iff] at h
  obtain ⟨w, -, st, -, h⟩ := h
  split at h
  · obtain rfl := Option.some.inj h
    exact evolves_of_heap_eq rfl fun _ => rfl
  · obtain rfl := Option.some.inj h
    exact s.finishGet_evolves a w.state w.timed st (s.waiters.eraseIdx i)

/-- A deadline times the state out. -/
theorem System.expire_evolves {s s' : System R V} {i : ℕ} (h : s.expire i = some s') :
    Evolves s (.expire i) s' := by
  simp only [expire, Option.bind_eq_bind, Option.bind_eq_some_iff] at h
  obtain ⟨w, hw, h⟩ := h
  split at h
  · simp only [Option.bind_eq_some_iff] at h
    obtain ⟨st, hst, h⟩ := h
    obtain rfl := Option.some.inj h
    refine evolves_of_heap_set (heap_of_acquire hst) (List.append_nil _).symm ?_ ?_
    · refine .timesOut rfl ?_ ?_
      · rw [timesOut, hw]
        rfl
      · simp [accepted]
    · intro q _
      simp [accepted]
  · cases h

/-- `then` and `thenVoid` keep every outcome; they append one state. -/
theorem System.continueWith_evolves [Inhabited R] [Inhabited V] {s s' : System R V}
    {a : Action R V} {p : ℕ} {kind : Continuation} (h : s.continueWith p kind = some s') :
    Evolves s a s' := by
  simp only [continueWith, Option.bind_eq_bind, Option.bind_eq_some_iff] at h
  obtain ⟨st, hst, h⟩ := h
  have hheap := heap_of_acquire hst
  have hself : ∀ new, s.heap ++ new = s.heap.set p st ++ new := by
    intro new
    obtain ⟨hlt, heq⟩ := List.getElem?_eq_some_iff.mp hheap
    rw [← heq, List.set_getElem_self]
  split at h
  · obtain rfl := Option.some.inj h
    exact evolves_of_heap_set hheap (hself _) (.keeps (.refl _) rfl) fun _ _ => rfl
  · obtain rfl := Option.some.inj h
    exact evolves_of_heap_set hheap (hself _) (.keeps (.refl _) rfl) fun _ _ => rfl
  · obtain rfl := Option.some.inj h
    exact evolves_of_heap_set hheap rfl (.keeps ⟨rfl, rfl, rfl⟩ rfl) fun _ _ => rfl

/-- `setTimeout` times the state out. -/
theorem System.setTimeout_evolves [Inhabited R] [Inhabited V] {s s' : System R V}
    {a : Action R V} {p : ℕ} (h : s.setTimeout p = some s') (ha : timesOut s a = some p) :
    Evolves s a s' := by
  simp only [setTimeout, Option.bind_eq_bind, Option.bind_eq_some_iff] at h
  obtain ⟨st, hst, h⟩ := h
  obtain rfl := Option.some.inj h
  exact evolves_of_heap_set (heap_of_acquire hst) (List.append_nil _).symm
    (.timesOut rfl ha rfl) fun _ _ => rfl

/-- Changes to the tasks do not matter for the states. -/
theorem Evolves.of_tasks {s s₁ : System R V} {a : Action R V} (h : Evolves s a s₁)
    (tasks : List (Task × TaskPc R V)) : Evolves s a { s₁ with tasks } where
  change := by
    intro p st hst
    obtain ⟨st', hst', hchange⟩ := h.change hst
    refine ⟨st', hst', ?_⟩
    cases hchange with
    | keeps hkept hacc => exact .keeps hkept hacc
    | completes hpending hdone hacc => exact .completes hpending hdone hacc
    | timesOut htimeout haction hacc => exact .timesOut htimeout haction hacc
  absent := h.absent

/-- A task's step, by where the task is. -/
theorem System.runTask_evolves [Inhabited R] [Inhabited V] {s s' : System R V} {i : ℕ} {r : R}
    {v : V} (h : s.runTask i r v = some s') : Evolves s (.task i r v) s' := by
  simp only [runTask, Option.bind_eq_bind, Option.bind_eq_some_iff] at h
  obtain ⟨⟨t, pc⟩, htask, h⟩ := h
  have hidle : ∀ tasks, Evolves s (.task i r v) { s with tasks } := fun tasks =>
    evolves_of_heap_eq rfl fun _ => rfl
  cases pc with
  | start =>
      simp only [Option.bind_eq_some_iff] at h
      obtain ⟨st, -, h⟩ := h
      obtain rfl := Option.some.inj h
      exact hidle _
  | timingOut =>
      simp only [Option.bind_eq_some_iff] at h
      obtain ⟨s₁, hs₁, h⟩ := h
      obtain rfl := Option.some.inj h
      have haction : timesOut s (.task i r v) = some t.promise := by
        rw [timesOut, htask]
        rfl
      exact (setTimeout_evolves hs₁ haction).of_tasks _
  | checking =>
      simp only [Option.bind_eq_some_iff] at h
      obtain ⟨st, -, h⟩ := h
      obtain rfl := Option.some.inj h
      split
      · exact hidle _
      · exact hidle _
  | calling =>
      obtain rfl := Option.some.inj h
      exact hidle _
  | returned =>
      simp only [Option.bind_eq_some_iff] at h
      obtain ⟨st, -, h⟩ := h
      obtain rfl := Option.some.inj h
      exact hidle _
  | setting r' v' =>
      simp only [Option.bind_eq_some_iff] at h
      obtain ⟨s₁, hs₁, h⟩ := h
      obtain rfl := Option.some.inj h
      exact (setValue_evolves hs₁).of_tasks _

variable [Inhabited R] [Inhabited V]

/-- **What one step does to the shared states.** -/
theorem step_evolves {s s' : System R V} {a : Action R V} (h : step s a = some s') :
    Evolves s a s' := by
  cases a with
  | setValue p r v => exact System.setValue_evolves h
  | setTimeout p => exact System.setTimeout_evolves h rfl
  | get p timed => exact System.get_evolves h
  | wake i => exact System.wake_evolves h
  | expire i => exact System.expire_evolves h
  | continueWith p kind => exact System.continueWith_evolves h
  | task i r v => exact System.runTask_evolves h

/-- A state that a step times out has the status of a timeout afterwards. -/
theorem status_of_timesOut {s s' : System R V} {a : Action R V} {p : ℕ}
    (h : step s a = some s') (ha : timesOut s a = some p) :
    ∃ st', s'.heap[p]? = some st' ∧ st'.status = .timeout := by
  have hput : ∀ {st st' : SharedState R V}, s.acquire p = some st → st'.status = .timeout →
      ∃ st'', (s.heap.set p st')[p]? = some st'' ∧ st''.status = .timeout := by
    intro st st' hst hst'
    have hlt := (List.getElem?_eq_some_iff.mp (System.heap_of_acquire hst)).1
    exact ⟨st', List.getElem?_set_self hlt, hst'⟩
  have htimeout : ∀ {s₁ : System R V}, s.setTimeout p = some s₁ →
      ∃ st', s₁.heap[p]? = some st' ∧ st'.status = .timeout := by
    intro s₁ hs₁
    simp only [System.setTimeout, Option.bind_eq_bind, Option.bind_eq_some_iff] at hs₁
    obtain ⟨st, hst, hs₁⟩ := hs₁
    obtain rfl := Option.some.inj hs₁
    exact hput hst rfl
  cases a with
  | setTimeout q =>
      obtain rfl : q = p := Option.some.inj ha
      exact htimeout h
  | expire i =>
      simp only [timesOut, Option.map_eq_some_iff] at ha
      obtain ⟨w, hw, rfl⟩ := ha
      simp only [step, System.expire, hw, Option.bind_eq_bind, Option.bind_some] at h
      split at h
      · simp only [Option.bind_eq_some_iff] at h
        obtain ⟨st, hst, h⟩ := h
        obtain rfl := Option.some.inj h
        exact hput hst rfl
      · cases h
  | task i r v =>
      simp only [timesOut, Option.bind_eq_some_iff] at ha
      obtain ⟨⟨t, pc⟩, htask, ha⟩ := ha
      cases pc with
      | timingOut =>
          obtain rfl : t.promise = p := Option.some.inj ha
          simp only [step, System.runTask, htask, Option.bind_eq_bind, Option.bind_some,
            Option.bind_eq_some_iff] at h
          obtain ⟨s₁, hs₁, h⟩ := h
          obtain rfl := Option.some.inj h
          obtain ⟨st', hst', hstatus⟩ := htimeout hs₁
          exact ⟨st', hst', hstatus⟩
      | start | checking | calling | returned | setting => cases ha
  | setValue | get | wake | continueWith => cases ha

/-! ### Write-once -/

/-- A completed state **stays completed** with the same result and value. -/
def DoneKept (s s' : System R V) : Prop :=
  ∀ (p : ℕ) (st : SharedState R V), s.heap[p]? = some st → st.status = .done →
    ∃ st', s'.heap[p]? = some st' ∧ st'.status = .done ∧ st'.result = st.result ∧
      st'.value = st.value

/-- The step **times out no state that is already done**. -/
def sparesDone (s : System R V) (a : Action R V) : Bool :=
  match timesOut s a with
  | some p => (s.heap[p]?).all fun st => st.status ≠ .done
  | none => true

/-- **A step keeps the completed states exactly if it times none of them out.** -/
theorem doneKept_iff_sparesDone {s s' : System R V} {a : Action R V} (h : step s a = some s') :
    DoneKept s s' ↔ sparesDone s a = true := by
  constructor
  · intro hkept
    rw [sparesDone]
    cases ha : timesOut s a with
    | none => rfl
    | some p =>
        obtain ⟨st', hst', htimeout⟩ := status_of_timesOut h ha
        rw [Option.all_eq_true]
        intro st hst
        rw [decide_eq_true_eq]
        intro hdone
        obtain ⟨st'', hst'', hdone'', -⟩ := hkept p st hst hdone
        obtain rfl : st' = st'' := Option.some.inj (hst'.symm.trans hst'')
        rw [htimeout] at hdone''
        cases hdone''
  · intro hspares p st hst hdone
    obtain ⟨st', hst', hchange⟩ := (step_evolves h).change hst
    cases hchange with
    | keeps hkept _ => exact ⟨st', hst', hkept.status.trans hdone, hkept.result, hkept.value⟩
    | completes hpending _ _ =>
        rw [hpending] at hdone
        cases hdone
    | timesOut _ haction _ =>
        simp [sparesDone, haction, hst, hdone] at hspares

/-- At most one accepted call per state, and none for a pending or absent one. -/
structure AcceptInv (s : System R V) : Prop where
  le_one : ∀ p, accepted s p ≤ 1
  pending : ∀ {p : ℕ} {st : SharedState R V}, s.heap[p]? = some st → st.status = .none →
    accepted s p = 0
  absent : ∀ {p : ℕ}, s.heap.length ≤ p → accepted s p = 0

omit [Inhabited R] [Inhabited V] in
/-- A state is kept by every step, so no step makes the heap shorter. -/
theorem Evolves.length_le {s s' : System R V} {a : Action R V} (h : Evolves s a s') :
    s.heap.length ≤ s'.heap.length := by
  by_contra hlt
  have hin : s'.heap.length < s.heap.length := by omega
  obtain ⟨st', hst', -⟩ := h.change (List.getElem?_eq_getElem hin)
  exact absurd (List.getElem?_eq_some_iff.mp hst').1 (Nat.lt_irrefl _)

/-- The account of accepted calls is kept by every step. -/
theorem AcceptInv.step {s s' : System R V} {a : Action R V} (h : AcceptInv s)
    (hs : step s a = some s') : AcceptInv s' := by
  have hev := step_evolves hs
  refine ⟨?_, ?_, ?_⟩
  · intro p
    rcases Nat.lt_or_ge p s.heap.length with hlt | hge
    · obtain ⟨st', -, hchange⟩ := hev.change (List.getElem?_eq_getElem hlt)
      have hle := h.le_one p
      cases hchange with
      | keeps _ hacc | timesOut _ _ hacc => omega
      | completes hpending _ hacc =>
          have hzero := h.pending (List.getElem?_eq_getElem hlt) hpending
          omega
    · rw [hev.absent hge, h.absent hge]
      exact Nat.zero_le 1
  · intro p st' hst' hnone
    rcases Nat.lt_or_ge p s.heap.length with hlt | hge
    · obtain ⟨st'', hst'', hchange⟩ := hev.change (List.getElem?_eq_getElem hlt)
      obtain rfl : st' = st'' := Option.some.inj (hst'.symm.trans hst'')
      cases hchange with
      | keeps hkept hacc =>
          rw [hacc]
          exact h.pending (List.getElem?_eq_getElem hlt) (hkept.status.symm.trans hnone)
      | completes _ hdone _ =>
          rw [hnone] at hdone
          cases hdone
      | timesOut htimeout _ _ =>
          rw [hnone] at htimeout
          cases htimeout
    · rw [hev.absent hge, h.absent hge]
  · intro p hge
    have hge' := Nat.le_trans hev.length_le hge
    rw [hev.absent hge', h.absent hge']

/-- **In every run, at most one `setValue` call per state returns true.** -/
theorem acceptInv_of_reach {s : System R V} (h : Reach step always init s) : AcceptInv s := by
  refine h.invariant AcceptInv ?_ fun hinv _ hs => hinv.step hs
  refine ⟨?_, ?_, ?_⟩
  · exact fun _ => Nat.zero_le 1
  · exact fun _ _ => rfl
  · exact fun _ => rfl

omit [Inhabited R] [Inhabited V] in
theorem DoneKept.refl (s : System R V) : DoneKept s s := by
  intro p st hst hdone
  exact ⟨st, hst, hdone, rfl, rfl⟩

omit [Inhabited R] [Inhabited V] in
theorem DoneKept.trans {s₁ s₂ s₃ : System R V} (h₁ : DoneKept s₁ s₂) (h₂ : DoneKept s₂ s₃) :
    DoneKept s₁ s₃ := by
  intro p st hst hdone
  obtain ⟨st', hst', hdone', hresult', hvalue'⟩ := h₁ p st hst hdone
  obtain ⟨st'', hst'', hdone'', hresult'', hvalue''⟩ := h₂ p st' hst' hdone'
  exact ⟨st'', hst'', hdone'', hresult''.trans hresult', hvalue''.trans hvalue'⟩

/-- **A completed future is final.** In every run in which no step times out a state that is
already done, a state that is done stays done with its result and value, and at most one
`setValue` call per state has returned true. -/
theorem done_is_final {s s' : System R V} (h : Reach step sparesDone init s)
    (h' : Reach step sparesDone s s') :
    DoneKept s s' ∧ ∀ p, accepted s' p ≤ 1 := by
  refine ⟨?_, ?_⟩
  · refine h'.invariant (DoneKept s) (DoneKept.refl s) ?_
    intro s₁ s₂ a hkept hspares hs
    exact hkept.trans ((doneKept_iff_sparesDone hs).mpr hspares)
  · exact (acceptInv_of_reach ((h.trans h').mono fun _ _ _ => rfl)).le_one

/-- The outcome of the state behind a handle. -/
def outcome (s : System R V) (p : ℕ) : Option (FutureStatus × R × V) :=
  (s.heap[p]?).map fun st => (st.status, st.result, st.value)

/-- The premises are met by a run that completes the promise, reads it, and lets a
continuation complete the promise that follows. -/
theorem done_is_final_chain :
    ∃ s s' : System ℕ ℕ, Reach step sparesDone init s ∧ Reach step sparesDone s s' ∧
      outcome s 0 = some (.done, 1, 10) ∧ outcome s' 1 = some (.done, 2, 20) ∧
      DoneKept s s' ∧ ∀ p, accepted s' p ≤ 1 := by
  obtain ⟨s, s', hs, hdone, hs', hnext⟩ :=
    @Reach.exists_of_exec_twice _ _ step sparesDone sparesDone (init : System ℕ ℕ)
      [.continueWith 0 .andThen, .setValue 0 1 10]
      [.get 0 false, .task 0 0 0, .task 0 0 0, .task 0 2 20, .task 0 0 0]
      (fun s => outcome s 0 = some (.done, 1, 10)) (fun s => outcome s 1 = some (.done, 2, 20))
      inferInstance inferInstance (by decide)
  obtain ⟨hkept, hone⟩ := done_is_final hs hs'
  exact ⟨s, s', hs, hs', hdone, hnext, hkept, hone⟩

omit [Inhabited R] [Inhabited V] in
/-- A state that was done and has timed out was not kept. -/
theorem not_doneKept {s s' : System R V} {p : ℕ} {r r' : R} {v v' : V}
    (h : outcome s p = some (.done, r, v)) (h' : outcome s' p = some (.timeout, r', v')) :
    ¬ DoneKept s s' := by
  intro hkept
  simp only [outcome, Option.map_eq_some_iff, Prod.mk.injEq] at h h'
  obtain ⟨st, hst, hdone, -⟩ := h
  obtain ⟨st', hst', htimeout, -⟩ := h'
  obtain ⟨st'', hst'', hdone'', -⟩ := hkept p st hst hdone
  obtain rfl : st' = st'' := Option.some.inj (hst'.symm.trans hst'')
  rw [htimeout] at hdone''
  cases hdone''

/-- `setTimeout` on a completed promise replaces its result and value by the defaults. -/
theorem setTimeout_overwrites_done :
    ¬ ∀ s s' : System ℕ ℕ, Reach step always init s → Reach step always s s' →
      DoneKept s s' ∧ ∀ p, accepted s' p ≤ 1 := by
  intro hall
  obtain ⟨s, s', hs, hdone, hs', htimeout⟩ :=
    @Reach.exists_of_exec_twice _ _ step always always (init : System ℕ ℕ)
      [.setValue 0 1 10] [.setTimeout 0]
      (fun s => outcome s 0 = some (.done, 1, 10)) (fun s => outcome s 0 = some (.timeout, 0, 0))
      inferInstance inferInstance (by decide)
  exact not_doneKept hdone htimeout (hall s s' hs hs').1

/-- So does a timed `get` whose deadline passes after the value was set and before it has the
mutex again: the promise has been completed, and the waiter makes it a timeout. -/
theorem expire_overwrites_done :
    ∃ s s' : System ℕ ℕ, Reach step always init s ∧ Reach step always s s' ∧
      outcome s 0 = some (.done, 1, 10) ∧ outcome s' 0 = some (.timeout, 1, 10) := by
  obtain ⟨s, s', hs, hdone, hs', htimeout⟩ :=
    @Reach.exists_of_exec_twice _ _ step always always (init : System ℕ ℕ)
      [.get 0 true, .setValue 0 1 10] [.expire 0]
      (fun s => outcome s 0 = some (.done, 1, 10)) (fun s => outcome s 0 = some (.timeout, 1, 10))
      inferInstance inferInstance (by decide)
  exact ⟨s, s', hs, hs', hdone, htimeout⟩

end ArchNet.Future

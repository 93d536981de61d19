import ArchNet.Future

/-!
# The Mutex of a Shared State

Every operation on a promise or a future takes the mutex of the shared state, some by a
`defer` that gives it back on every path, some by hand. This module follows the mutexes
through whole runs: which steps leave one taken, and what that does to the later operations.

## Conventions

* `isComplete` and `isTimeout` only read the status, so a run with them is a run of
  `operate`, which adds them to the steps of the system.
* An operation on a handle whose mutex is taken is not enabled: it is blocked there.

## Main results

* `mutexesFree_step`: all the mutexes are free after a step exactly if they were before it and
  the step made no `setValue` call on a state that is no longer pending.
* `mutexes_free_iff`: **a run leaves every mutex free, and no operation blocked, exactly if
  each of its `setValue` calls came in time**.
-/

open Lts

namespace ArchNet.Future

variable {R V : Type}

/-! ### The operations that read the status -/

/-- `isComplete`. -/
def SharedState.isComplete (st : SharedState R V) : Bool := st.status = .done

/-- `isTimeout`. -/
def SharedState.isTimeout (st : SharedState R V) : Bool := st.status = .timeout

/-- A read under the mutex: what it returns, and the system after it. -/
def System.read (s : System R V) (p : ℕ) (f : SharedState R V → Bool) :
    Option (Bool × System R V) := do
  let st ← s.acquire p
  return (f st, s)

/-- The operations of promises and futures, and the steps of the waiters and tasks. -/
inductive Operation (R V : Type)
  | isComplete (p : ℕ)
  | isTimeout (p : ℕ)
  | action (a : Action R V)
  deriving DecidableEq, Repr

/-- The state whose mutex a step takes, if any. -/
def locks (s : System R V) : Operation R V → Option ℕ
  | .isComplete p | .isTimeout p => some p
  | .action (.setValue p _ _) | .action (.setTimeout p) => some p
  | .action (.get p _) | .action (.continueWith p _) => some p
  | .action (.wake i) => (s.waiters[i]?).map Waiter.state
  | .action (.expire i) => ((s.waiters[i]?).filter Waiter.timed).map Waiter.state
  | .action (.task i _ _) =>
      (s.tasks[i]?).bind fun t =>
        match t.2 with
        | .timingOut | .checking | .setting _ _ => some t.1.promise
        | .start | .calling | .returned => none

/-- The state on which a step makes a `setValue` call, if any. -/
def setsValue (s : System R V) : Operation R V → Option ℕ
  | .action (.setValue p _ _) => some p
  | .action (.task i _ _) =>
      (s.tasks[i]?).bind fun t => if t.2 matches .setting _ _ then some t.1.promise else none
  | _ => none

/-- The step makes **no `setValue` call on a state that is no longer pending**. -/
def inTime (s : System R V) (op : Operation R V) : Bool :=
  match setsValue s op with
  | some p => (s.heap[p]?).all fun st => st.status = .none
  | none => true

/-- No mutex is taken. -/
def MutexesFree (s : System R V) : Prop := ∀ st ∈ s.heap, st.locked = false

instance (s : System R V) : Decidable (MutexesFree s) :=
  inferInstanceAs (Decidable (∀ st ∈ s.heap, st.locked = false))

section Code

variable [Inhabited R] [Inhabited V]

/-- One step of a run with the two operations that read the status. -/
def operate (s : System R V) : Operation R V → Option (System R V)
  | .isComplete p => (s.read p SharedState.isComplete).map Prod.snd
  | .isTimeout p => (s.read p SharedState.isTimeout).map Prod.snd
  | .action a => step s a

/-- No operation on an existing state is blocked. -/
def NoneBlocked (s : System R V) : Prop :=
  ∀ (op : Operation R V) (p : ℕ), locks s op = some p → p < s.heap.length →
    (operate s op).isSome

end Code

/-! ### What a step does to the mutexes -/

/-- The mutex of a state can be taken exactly if the state exists and the mutex is free. -/
theorem System.acquire_eq_some_iff {s : System R V} {p : ℕ} {st : SharedState R V} :
    s.acquire p = some st ↔ s.heap[p]? = some st ∧ st.locked = false := by
  rw [acquire, Option.filter_eq_some_iff, Bool.not_eq_true']

/-- With the mutexes free, every existing state can be locked. -/
theorem MutexesFree.acquire {s : System R V} {p : ℕ} (h : MutexesFree s)
    (hp : p < s.heap.length) : s.acquire p = some s.heap[p] :=
  System.acquire_eq_some_iff.mpr ⟨List.getElem?_eq_getElem hp, h _ (List.getElem_mem hp)⟩

/-- A step that leaves the states alone. -/
theorem mutexesFree_of_heap_eq {s s' : System R V} (h : s'.heap = s.heap) :
    MutexesFree s' ↔ MutexesFree s := by
  rw [MutexesFree, MutexesFree, h]

/-- A step that replaces a state it has locked, and appends states nobody has locked. -/
theorem mutexesFree_of_heap_set {s s' : System R V} {p : ℕ} {st st' : SharedState R V}
    {new : List (SharedState R V)} (hst : s.acquire p = some st)
    (hheap : s'.heap = s.heap.set p st' ++ new) (hnew : ∀ x ∈ new, x.locked = false) :
    MutexesFree s' ↔ MutexesFree s ∧ st'.locked = false := by
  obtain ⟨hget, hfree⟩ := System.acquire_eq_some_iff.mp hst
  obtain ⟨hlt, rfl⟩ := List.getElem?_eq_some_iff.mp hget
  simp only [MutexesFree, hheap, List.mem_append]
  constructor
  · intro h
    refine ⟨?_, h st' (.inl (List.mem_set hlt _))⟩
    intro x hx
    obtain ⟨q, hq, rfl⟩ := List.getElem_of_mem hx
    rcases eq_or_ne p q with rfl | hne
    · exact hfree
    · rw [← @List.getElem_set_ne _ _ p q hne st' (by rwa [List.length_set])]
      exact h _ (.inl (List.getElem_mem _))
  · rintro ⟨h, hst'⟩ x (hx | hx)
    · rcases List.mem_or_eq_of_mem_set hx with hx | rfl
      · exact h x hx
      · exact hst'
    · exact hnew x hx

/-- `setValue` gives the mutex back exactly if the state was pending. -/
theorem System.setValue_mutexesFree {s s' : System R V} {p : ℕ} {r : R} {v : V}
    (h : s.setValue p r v = some s') :
    MutexesFree s' ↔
      MutexesFree s ∧ ((s.heap[p]?).all fun st => st.status = .none) = true := by
  simp only [setValue, Option.bind_eq_bind, Option.bind_eq_some_iff, Option.pure_def,
    Option.some.injEq] at h
  obtain ⟨st, hst, rfl⟩ := h
  obtain ⟨hget, hfree⟩ := acquire_eq_some_iff.mp hst
  rw [mutexesFree_of_heap_set hst (List.append_nil _).symm (List.forall_mem_nil _), hget]
  by_cases hpending : st.status = .none
  · simp [SharedState.setValue, hpending, hfree]
  · simp [SharedState.setValue, hpending]

/-- `setTimeout` gives the mutex back. -/
theorem System.setTimeout_mutexesFree [Inhabited R] [Inhabited V] {s s' : System R V} {p : ℕ}
    (h : s.setTimeout p = some s') : MutexesFree s' ↔ MutexesFree s := by
  simp only [setTimeout, Option.bind_eq_bind, Option.bind_eq_some_iff] at h
  obtain ⟨st, hst, h⟩ := h
  obtain rfl := Option.some.inj h
  rw [mutexesFree_of_heap_set hst (List.append_nil _).symm (List.forall_mem_nil _)]
  exact and_iff_left (acquire_eq_some_iff.mp hst).2

/-- A wait that ends by its deadline gives the mutex back. -/
theorem System.expire_mutexesFree {s s' : System R V} {i : ℕ} (h : s.expire i = some s') :
    MutexesFree s' ↔ MutexesFree s := by
  simp only [expire, Option.bind_eq_bind, Option.bind_eq_some_iff] at h
  obtain ⟨w, -, h⟩ := h
  split_ifs at h
  simp only [Option.bind_eq_some_iff] at h
  obtain ⟨st, hst, h⟩ := h
  obtain rfl := Option.some.inj h
  rw [mutexesFree_of_heap_set hst (List.append_nil _).symm (List.forall_mem_nil _)]
  exact and_iff_left (acquire_eq_some_iff.mp hst).2

/-- `then` and `thenVoid` give the mutex back on every path. -/
theorem System.continueWith_mutexesFree [Inhabited R] [Inhabited V] {s s' : System R V} {p : ℕ}
    {kind : Continuation} (h : s.continueWith p kind = some s') :
    MutexesFree s' ↔ MutexesFree s := by
  simp only [continueWith, Option.bind_eq_bind, Option.bind_eq_some_iff] at h
  obtain ⟨st, hst, h⟩ := h
  obtain ⟨hget, hfree⟩ := acquire_eq_some_iff.mp hst
  have hself : ∀ new, s.heap ++ new = s.heap.set p st ++ new := by
    intro new
    obtain ⟨hlt, heq⟩ := List.getElem?_eq_some_iff.mp hget
    rw [← heq, List.set_getElem_self]
  have hnew : ∀ x : SharedState R V, x.locked = false → ∀ y ∈ [x], y.locked = false := by
    intro x hx y hy
    rwa [List.mem_singleton.mp hy]
  cases hstatus : st.status with
  | done =>
      rw [hstatus] at h
      obtain rfl := Option.some.inj h
      rw [mutexesFree_of_heap_set hst (hself _) (hnew _ rfl)]
      exact and_iff_left hfree
  | timeout =>
      rw [hstatus] at h
      obtain rfl := Option.some.inj h
      rw [mutexesFree_of_heap_set hst (hself _) (hnew _ rfl)]
      exact and_iff_left hfree
  | none =>
      rw [hstatus] at h
      obtain rfl := Option.some.inj h
      rw [mutexesFree_of_heap_set hst rfl (hnew _ rfl)]
      exact and_iff_left hfree

/-- Entering `get` touches no state. -/
theorem System.get_heap {s s' : System R V} {p : ℕ} {timed : Bool}
    (h : s.get p timed = some s') : s'.heap = s.heap := by
  simp only [get, Option.bind_eq_bind, Option.bind_eq_some_iff] at h
  obtain ⟨st, -, h⟩ := h
  split_ifs at h <;> exact (Option.some.inj h) ▸ rfl

/-- Nor does a wake-up. -/
theorem System.wake_heap {s s' : System R V} {i : ℕ} (h : s.wake i = some s') :
    s'.heap = s.heap := by
  simp only [wake, Option.bind_eq_bind, Option.bind_eq_some_iff] at h
  obtain ⟨w, -, st, -, h⟩ := h
  split_ifs at h <;> exact (Option.some.inj h) ▸ rfl

/-- Nor does an operation that reads the status. -/
theorem System.read_eq {s s' : System R V} {p : ℕ} {f : SharedState R V → Bool}
    (h : (s.read p f).map Prod.snd = some s') : s' = s := by
  simp only [read, Option.bind_eq_bind, Option.map_eq_some_iff, Option.bind_eq_some_iff] at h
  obtain ⟨⟨b, s₁⟩, ⟨st, -, h⟩, rfl⟩ := h
  exact (Prod.ext_iff.mp (Option.some.inj h)).2.symm

section Runs

variable [Inhabited R] [Inhabited V]

/-- A task's step gives back what it has locked, unless it is a late `setValue`. -/
theorem System.runTask_mutexesFree {s s' : System R V} {i : ℕ} {r : R} {v : V}
    (h : s.runTask i r v = some s') :
    MutexesFree s' ↔ MutexesFree s ∧ inTime s (.action (.task i r v)) = true := by
  simp only [runTask, Option.bind_eq_bind, Option.bind_eq_some_iff] at h
  obtain ⟨⟨t, pc⟩, htask, h⟩ := h
  cases pc with
  | start | checking | returned =>
      simp only [Option.bind_eq_some_iff] at h
      obtain ⟨st, -, h⟩ := h
      obtain rfl := Option.some.inj h
      simp only [inTime, setsValue, htask, Option.bind_some]
      refine (mutexesFree_of_heap_eq ?_).trans (and_iff_left rfl).symm
      first | rfl | split_ifs <;> rfl
  | calling =>
      obtain rfl := Option.some.inj h
      simp only [inTime, setsValue, htask, Option.bind_some]
      exact (mutexesFree_of_heap_eq rfl).trans (and_iff_left rfl).symm
  | timingOut =>
      simp only [Option.bind_eq_some_iff] at h
      obtain ⟨s₁, hs₁, h⟩ := h
      obtain rfl := Option.some.inj h
      simp only [inTime, setsValue, htask, Option.bind_some]
      exact (setTimeout_mutexesFree hs₁).trans (and_iff_left rfl).symm
  | setting r' v' =>
      simp only [Option.bind_eq_some_iff] at h
      obtain ⟨s₁, hs₁, h⟩ := h
      obtain rfl := Option.some.inj h
      simp only [inTime, setsValue, htask, Option.bind_some]
      have hend : MutexesFree (s₁.endTask i) ↔ MutexesFree s₁ := mutexesFree_of_heap_eq rfl
      exact hend.trans (setValue_mutexesFree hs₁)

/-- **What a step does to the mutexes**: all of them are free after it exactly if they were
before it and it makes no late `setValue` call. -/
theorem mutexesFree_step {s s' : System R V} {op : Operation R V} (h : operate s op = some s') :
    MutexesFree s' ↔ MutexesFree s ∧ inTime s op = true := by
  have hplain : (MutexesFree s' ↔ MutexesFree s) →
      (MutexesFree s' ↔ MutexesFree s ∧ (true = true)) := by
    intro hiff
    rw [hiff]
    exact (and_iff_left rfl).symm
  cases op with
  | isComplete p => exact hplain (by rw [System.read_eq h])
  | isTimeout p => exact hplain (by rw [System.read_eq h])
  | action a =>
      cases a with
      | setValue p r v => exact System.setValue_mutexesFree h
      | setTimeout p => exact hplain (System.setTimeout_mutexesFree h)
      | get p timed => exact hplain (mutexesFree_of_heap_eq (System.get_heap h))
      | wake i => exact hplain (mutexesFree_of_heap_eq (System.wake_heap h))
      | expire i => exact hplain (System.expire_mutexesFree h)
      | continueWith p kind => exact hplain (System.continueWith_mutexesFree h)
      | task i r v => exact System.runTask_mutexesFree h

/-! ### What is blocked -/

/-- With the mutexes free, every operation on an existing state goes through. -/
theorem MutexesFree.noneBlocked {s : System R V} (h : MutexesFree s) : NoneBlocked s := by
  intro op p hlocks hp
  have hacq := h.acquire hp
  cases op with
  | isComplete q | isTimeout q =>
      obtain rfl := Option.some.inj hlocks
      simp [operate, System.read, hacq]
  | action a =>
      cases a with
      | setValue q r v | setTimeout q =>
          obtain rfl := Option.some.inj hlocks
          simp [operate, step, System.setValue, System.setTimeout, hacq]
      | get q timed =>
          obtain rfl := Option.some.inj hlocks
          simp only [operate, step, System.get, hacq, Option.bind_eq_bind, Option.bind_some]
          split_ifs <;> rfl
      | continueWith q kind =>
          obtain rfl := Option.some.inj hlocks
          simp only [operate, step, System.continueWith, hacq, Option.bind_eq_bind,
            Option.bind_some]
          cases s.heap[q].status <;> rfl
      | wake i =>
          obtain ⟨w, hw, rfl⟩ := Option.map_eq_some_iff.mp hlocks
          simp only [operate, step, System.wake, hw, hacq, Option.bind_eq_bind, Option.bind_some]
          split_ifs <;> rfl
      | expire i =>
          obtain ⟨w, hw, rfl⟩ := Option.map_eq_some_iff.mp hlocks
          obtain ⟨hw, htimed⟩ := Option.filter_eq_some_iff.mp hw
          simp [operate, step, System.expire, hw, htimed, hacq]
      | task i r v =>
          obtain ⟨⟨t, pc⟩, htask, hpc⟩ := Option.bind_eq_some_iff.mp hlocks
          simp only [operate, step, System.runTask, htask, Option.bind_eq_bind, Option.bind_some]
          cases pc with
          | timingOut | setting =>
              obtain rfl := Option.some.inj hpc
              simp [System.setTimeout, System.setValue, hacq]
          | checking =>
              obtain rfl := Option.some.inj hpc
              simp [hacq]
          | start | calling | returned => cases hpc

/-- Where a mutex is taken, the operations on its state are blocked. -/
theorem NoneBlocked.mutexesFree {s : System R V} (h : NoneBlocked s) : MutexesFree s := by
  intro st hst
  obtain ⟨p, hp, rfl⟩ := List.getElem_of_mem hst
  have hread := h (.isComplete p) p rfl hp
  simp only [operate, System.read, Option.isSome_map, Option.bind_eq_bind,
    Option.isSome_bind] at hread
  obtain ⟨st', hst', -⟩ := (Option.any_eq_true _ _).mp hread
  obtain ⟨hget, hfree⟩ := System.acquire_eq_some_iff.mp hst'
  rw [List.getElem?_eq_getElem hp] at hget
  rwa [Option.some.inj hget]

/-- **Every mutex is given back.** A run ends with every mutex free and no operation blocked
exactly if each of its `setValue` calls, those of the tasks included, was made on a state that
was still pending. -/
theorem mutexes_free_iff {s : System R V} {ops : List (Operation R V)}
    (h : exec operate init ops = some s) :
    (MutexesFree s ∧ NoneBlocked s) ↔ execIf operate inTime init ops = some s := by
  have hinit : MutexesFree (init : System R V) := by
    intro st hst
    rw [List.mem_singleton.mp hst]
    rfl
  have hruns : MutexesFree s ↔ execIf operate inTime init ops = some s :=
    @good_iff_execIf _ _ operate inTime (fun _ => True) MutexesFree (fun _ _ => trivial)
      (fun _ hs => mutexesFree_step hs) init s ops trivial hinit h
  rw [← hruns]
  exact and_iff_left_of_imp MutexesFree.noneBlocked

end Runs

/-- The premise is met by a run that waits in vain, without a value that comes too late. -/
theorem mutexes_free_timed_get :
    ∃ s : System ℕ ℕ,
      exec operate init [.action (.get 0 true), .action (.expire 0), .isTimeout 0] = some s ∧
      MutexesFree s ∧ NoneBlocked s := by
  refine ⟨_, rfl, ?_⟩
  exact (@mutexes_free_iff ℕ ℕ _ _ _
    [.action (.get 0 true), .action (.expire 0), .isTimeout 0] rfl).mpr rfl

/-- A timed `get` gives up, the value is set too late, and the next `get` is blocked. -/
theorem late_setValue_blocks :
    ¬ ∀ (ops : List (Operation ℕ ℕ)) (s : System ℕ ℕ), exec operate init ops = some s →
      MutexesFree s ∧ NoneBlocked s := by
  intro hall
  obtain ⟨-, hnone⟩ := hall [.action (.get 0 true), .action (.expire 0),
    .action (.setValue 0 1 10)] _ rfl
  have hget := hnone (.action (.get 0 false)) 0 rfl Nat.zero_lt_one
  cases hget

end ArchNet.Future

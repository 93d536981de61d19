import ArchNet.Lts

/-!
# The Closure of a Parallel Channel

`RobinPBrpcParallelChannel::CallMethod` makes one closure with `NewCallback`, gives it to every
sub-call and waits until the wait group has counted all of them. A closure made so deletes itself
at the end of its run.

## Conventions

* A sub-call runs the closure it was given once, at any time after it was called, on any thread;
  it runs `sub_call_done` and then deletes the closure, and the others may come in between.
* A run of a deleted closure, and a second deletion, are undefined: the model records them in
  `fault` and goes no further.

## Main results

* `returned_all_run`: `CallMethod` returns only after all sub-calls have run their closure, for any
  number of them.
* `good_iff`: **when every run is good** — for at most one sub-call.
-/

namespace ArchNet

namespace ParallelChannel

/-- Where a sub-call is: added to the channel; called; behind `wg->done()`; behind the deletion of
the closure. -/
inductive SubCall
  | added
  | called
  | done
  | completed
  deriving DecidableEq, Repr

/-- The sub-call has run the closure. -/
def SubCall.hasRun : SubCall → Bool
  | added | called => false
  | done | completed => true

/-- `CallMethod` under way: the sub-calls, how many the loop has called, the closure and how often
it has been run, and the count of the wait group. -/
structure Call where
  subCalls : List SubCall
  called : ℕ := 0
  live : Bool := true
  runs : ℕ := 0
  wg : ℕ
  returned : Bool := false
  fault : Bool := false
  deriving DecidableEq, Repr

/-- What happens next: the loop calls a sub-call, a sub-call enters `Run`, a sub-call deletes the
closure, `CallMethod` returns. -/
inductive Action
  | callNext
  | run (i : ℕ)
  | delete (i : ℕ)
  | return
  deriving DecidableEq, Repr

namespace Call

/-- `CallMethod` on a channel with `n` sub-calls: `wg.add` and `NewCallback`. -/
def start (n : ℕ) : Call where
  subCalls := List.replicate n .added
  wg := n

/-- What an action does. -/
def perform (s : Call) : Action → Option Call
  | .callNext =>
      if s.subCalls[s.called]? = some .added then
        some { s with subCalls := s.subCalls.set s.called .called, called := s.called + 1 }
      else none
  | .run i =>
      if s.subCalls[i]? = some .called then
        if s.live then
          some { s with subCalls := s.subCalls.set i .done, runs := s.runs + 1, wg := s.wg - 1 }
        else some { s with fault := true }
      else none
  | .delete i =>
      if s.subCalls[i]? = some .done then
        if s.live then some { s with subCalls := s.subCalls.set i .completed, live := false }
        else some { s with fault := true }
      else none
  | .return =>
      if s.returned = false ∧ s.called = s.subCalls.length ∧ s.wg = 0 then
        some { s with returned := true }
      else none

/-- One step; none behind a fault. -/
def step (s : Call) (a : Action) : Option Call := if s.fault then none else s.perform a

/-- **A good state**: no deleted closure was used, the closure was not run twice, and when
`CallMethod` has returned every sub-call has run its closure, once. -/
structure Good (s : Call) : Prop where
  fault : s.fault = false
  once : s.runs ≤ 1
  returned : s.returned = true → ∀ c ∈ s.subCalls, c.hasRun = true ∧ s.runs = 1

/-- What every step keeps, for any number of sub-calls. -/
structure Inv (n : ℕ) (s : Call) : Prop where
  length : s.subCalls.length = n
  runs : s.runs = s.subCalls.countP SubCall.hasRun
  wg : s.runs + s.wg = n
  returned : s.returned = true → s.wg = 0
  dead : s.live = false → SubCall.completed ∈ s.subCalls
  fault : s.fault = true → 2 ≤ n

variable {n : ℕ} {s s' : Call}

theorem inv_start (n : ℕ) : Inv n (start n) where
  length := List.length_replicate
  runs := by simp [start, List.countP_replicate, SubCall.hasRun]
  wg := Nat.zero_add n
  returned := nofun
  dead := nofun
  fault := nofun

/-- How many sub-calls have run their closure after one of them has moved. -/
theorem countP_set {l : List SubCall} {i : ℕ} {c : SubCall} (h : l[i]? = some c) (c' : SubCall) :
    (l.set i c').countP SubCall.hasRun + c.hasRun.toNat =
      l.countP SubCall.hasRun + c'.hasRun.toNat := by
  obtain ⟨hi, hc⟩ := List.getElem?_eq_some_iff.mp h
  have hpos : c.hasRun = true → 0 < l.countP SubCall.hasRun := fun hrun =>
    List.countP_pos_iff.mpr ⟨c, List.mem_of_getElem? h, hrun⟩
  rw [List.countP_set hi, hc]
  cases hrun : c.hasRun with
  | false => cases c'.hasRun <;> simp
  | true =>
      have := hpos hrun
      cases c'.hasRun
      all_goals simp only [if_true, Bool.false_eq_true, if_false, Bool.toNat_true, Bool.toNat_false]
      all_goals omega

/-- A sub-call that is not completed is another one than the one that is. -/
theorem exists_other {l : List SubCall} {i : ℕ} {c : SubCall} (h : l[i]? = some c)
    (hc : c ≠ .completed) (hmem : SubCall.completed ∈ l) :
    ∃ j, l[j]? = some .completed ∧ i ≠ j := by
  obtain ⟨j, hj⟩ := List.mem_iff_getElem?.mp hmem
  refine ⟨j, hj, ?_⟩
  rintro rfl
  exact hc (Option.some.inj (h.symm.trans hj))

/-- A completed sub-call stays one when another one moves. -/
theorem completed_mem_set {l : List SubCall} {i : ℕ} {c c' : SubCall} (h : l[i]? = some c)
    (hc : c ≠ .completed) (hmem : SubCall.completed ∈ l) : SubCall.completed ∈ l.set i c' := by
  obtain ⟨j, hj, hij⟩ := exists_other h hc hmem
  exact List.mem_iff_getElem?.mpr ⟨j, by rw [List.getElem?_set_ne hij, hj]⟩

/-- Two different sub-calls are two. -/
theorem two_le_of_mem {l : List SubCall} {i : ℕ} {c : SubCall} (h : l[i]? = some c)
    (hc : c ≠ .completed) (hmem : SubCall.completed ∈ l) : 2 ≤ l.length := by
  obtain ⟨j, hj, hij⟩ := exists_other h hc hmem
  obtain ⟨hi, -⟩ := List.getElem?_eq_some_iff.mp h
  obtain ⟨hj', -⟩ := List.getElem?_eq_some_iff.mp hj
  omega

/-- **A fault takes two sub-calls**: one has deleted the closure, and another one comes to it. -/
theorem Inv.faulted {i : ℕ} {c : SubCall} (h : Inv n s) (hc : s.subCalls[i]? = some c)
    (hne : c ≠ .completed) (hlive : s.live = false) : Inv n { s with fault := true } where
  length := h.length
  runs := h.runs
  wg := h.wg
  returned := h.returned
  dead := h.dead
  fault _ := h.length ▸ two_le_of_mem hc hne (h.dead hlive)

/-- What a step can do, where it does not run into a fault. -/
theorem Inv.step {a : Action} (h : Inv n s) (hs : s.step a = some s') : Inv n s' := by
  rw [Call.step] at hs
  split_ifs at hs with hfault
  have hinv := h
  obtain ⟨hlen, hruns, hwg, hret, hdead, hflt⟩ := h
  cases a with
  | callNext =>
      rw [perform, Option.ite_none_right_eq_some] at hs
      obtain ⟨hc, hs⟩ := hs
      obtain rfl := Option.some.inj hs
      have hcount := countP_set hc .called
      refine ⟨by simpa using hlen, ?_, hwg, hret, fun hl => ?_, hflt⟩
      · simpa [SubCall.hasRun, ← hruns] using hcount.symm
      · exact completed_mem_set hc nofun (hdead hl)
  | run i =>
      rw [perform, Option.ite_none_right_eq_some] at hs
      obtain ⟨hc, hs⟩ := hs
      have hcount := countP_set hc .done
      split_ifs at hs with hlive
      · obtain rfl := Option.some.inj hs
        have hle := List.countP_le_length (l := s.subCalls.set i .done) (p := SubCall.hasRun)
        simp only [SubCall.hasRun, Bool.toNat_false, Bool.toNat_true, ← hruns,
          Nat.add_zero] at hcount
        rw [hcount, List.length_set, hlen] at hle
        refine ⟨by simpa using hlen, hcount.symm, ?_, fun hr => ?_, fun hl => ?_, hflt⟩
        · dsimp only
          omega
        · have := hret hr
          dsimp only
          omega
        · exact completed_mem_set hc nofun (hdead hl)
      · obtain rfl := Option.some.inj hs
        exact hinv.faulted hc nofun (by simpa using hlive)
  | delete i =>
      rw [perform, Option.ite_none_right_eq_some] at hs
      obtain ⟨hc, hs⟩ := hs
      have hcount := countP_set hc .completed
      split_ifs at hs with hlive
      · obtain rfl := Option.some.inj hs
        obtain ⟨hi, -⟩ := List.getElem?_eq_some_iff.mp hc
        refine ⟨by simpa using hlen, ?_, hwg, hret, fun _ => ?_, hflt⟩
        · simpa [SubCall.hasRun, ← hruns] using hcount.symm
        · exact List.mem_iff_getElem?.mpr ⟨i, List.getElem?_set_self hi⟩
      · obtain rfl := Option.some.inj hs
        exact hinv.faulted hc nofun (by simpa using hlive)
  | «return» =>
      rw [perform, Option.ite_none_right_eq_some] at hs
      obtain ⟨⟨-, -, hzero⟩, hs⟩ := hs
      obtain rfl := Option.some.inj hs
      exact ⟨hlen, hruns, hwg, fun _ => hzero, hdead, hflt⟩

theorem inv_of_reach (h : Lts.Reach step Lts.always (start n) s) : Inv n s :=
  h.invariant (Inv n) (inv_start n) fun hi _ hs => hi.step hs

/-- Behind the return every sub-call has run its closure. -/
theorem Inv.all_run (h : Inv n s) (hr : s.returned = true) :
    ∀ c ∈ s.subCalls, c.hasRun = true := by
  have hzero := h.returned hr
  have hcount : s.subCalls.countP SubCall.hasRun = s.subCalls.length := by
    rw [← h.runs, h.length, ← h.wg, hzero, Nat.add_zero]
  exact List.countP_eq_length.mp hcount

/-- **`CallMethod` waits for all.** In every run, for any number of sub-calls. -/
theorem returned_all_run (h : Lts.Reach step Lts.always (start n) s) (hr : s.returned = true) :
    ∀ c ∈ s.subCalls, c.hasRun = true := (inv_of_reach h).all_run hr

/-- With at most one sub-call every state is good. -/
theorem Inv.good (h : Inv n s) (hn : n ≤ 1) : Good s where
  fault := by
    cases hf : s.fault with
    | false => rfl
    | true =>
        have := h.fault hf
        omega
  once := by
    have := h.wg
    omega
  returned := by
    intro hr c hc
    refine ⟨h.all_run hr c hc, ?_⟩
    have hpos := List.length_pos_iff_exists_mem.mpr ⟨c, hc⟩
    have hlen := h.length
    have hzero := h.returned hr
    have hwg := h.wg
    omega

/-- With two sub-calls or more the closure is run twice. -/
theorem reach_two_runs (m : ℕ) :
    ∃ s, Lts.Reach step Lts.always (start (m + 2)) s ∧ s.runs = 2 :=
  ⟨_, Lts.Reach.of_exec [.callNext, .callNext, .run 0, .run 1] rfl, rfl⟩

/-- **When every run is good.** Whatever the order in which the sub-calls run the closure and
delete it: exactly when there is at most one. -/
theorem good_iff (n : ℕ) :
    (∀ s, Lts.Reach step Lts.always (start n) s → s.Good) ↔ n ≤ 1 := by
  constructor
  · intro hgood
    by_contra hn
    obtain ⟨m, rfl⟩ := Nat.exists_eq_add_of_le (show 2 ≤ n by omega)
    obtain ⟨s, hs, hruns⟩ := reach_two_runs m
    rw [Nat.add_comm] at hs
    have := (hgood s hs).once
    omega
  · exact fun hn s hs => (inv_of_reach hs).good hn

/-- Two sub-calls, one after the other: the second one runs the closure that the first one has
deleted. -/
theorem second_runs_deleted :
    ∃ s, Lts.Reach step Lts.always (start 2) s ∧ s.fault = true :=
  ⟨_, Lts.Reach.of_exec [.callNext, .run 0, .delete 0, .callNext, .run 1] rfl, rfl⟩

end Call

end ParallelChannel

end ArchNet

import Mathlib.Data.List.Basic

/-!
# Runs of a Partial Step Function

A system is given by a partial step function `step : σ → α → Option σ`: from a state, an
action either is not enabled (`none`) or leads to one next state. All nondeterminism — the
scheduler, the network, the callers — sits in the choice of the action. This module fixes
the two ways in which the rest of the development speaks about whole runs.

* `Reach step C s₀ s` — the state `s` is reached from `s₀` by finitely many steps, each of
  which meets the side condition `C` in the state before it. With the trivial condition
  (`always`) this is plain reachability.
* `exec step s as` — the state after the listed actions, computed.

## Main results

* `Reach.invariant`: **the invariant rule** — what holds at the start and is kept by every
  step that meets the condition holds in every state reached.
* `invariant_of_exec`, `invariant_of_execIf`: the rule for computed runs.
* `good_iff_execIf`: the rule for a condition that is exact at every step, over whole runs.
* `Reach.of_exec`: a computed run all of whose steps pass the condition is a derivation
  of `Reach`, so concrete runs are checked by evaluation.
* `OwnRun`: the steps of one operation alone, up to the first state where it has ended.
-/

namespace Lts

variable {σ α : Type*}

/-- The trivial side condition: every step is allowed. -/
def always (_ : σ) (_ : α) : Bool := true

/-- **Reachability under a side condition**: `s` is reached from `s₀` by steps each of
which meets `C` in the state before it. -/
inductive Reach (step : σ → α → Option σ) (C : σ → α → Bool) (s₀ : σ) : σ → Prop
  | refl : Reach step C s₀ s₀
  | tail {s s' : σ} {a : α} :
      Reach step C s₀ s → C s a = true → step s a = some s' → Reach step C s₀ s'

/-- **The invariant rule.** What holds at the start and is kept by every step that meets
the condition holds in every state reached. -/
theorem Reach.invariant {step : σ → α → Option σ} {C : σ → α → Bool} {s₀ s : σ}
    (Inv : σ → Prop) (hinit : Inv s₀)
    (hstep : ∀ {s s' : σ} {a : α}, Inv s → C s a = true → step s a = some s' → Inv s')
    (h : Reach step C s₀ s) : Inv s := by
  induction h with
  | refl => exact hinit
  | tail _ hC hs ih => exact hstep ih hC hs

/-- A run under a stronger condition is a run under a weaker one. -/
theorem Reach.mono {step : σ → α → Option σ} {C D : σ → α → Bool} {s₀ s : σ}
    (hCD : ∀ s a, C s a = true → D s a = true) (h : Reach step C s₀ s) :
    Reach step D s₀ s := by
  induction h with
  | refl => exact .refl
  | tail _ hC hs ih => exact .tail ih (hCD _ _ hC) hs

/-- Runs compose. -/
theorem Reach.trans {step : σ → α → Option σ} {C : σ → α → Bool} {s₀ s₁ s₂ : σ}
    (h₁ : Reach step C s₀ s₁) (h₂ : Reach step C s₁ s₂) : Reach step C s₀ s₂ := by
  induction h₂ with
  | refl => exact h₁
  | tail _ hC hs ih => exact .tail ih hC hs

/-- The state after the listed actions, when each of them is enabled in turn. -/
def exec (step : σ → α → Option σ) (s : σ) : List α → Option σ
  | [] => some s
  | a :: as => (step s a).bind fun s' => exec step s' as

/-- **The invariant rule for computed runs.** What every step keeps, a whole run keeps. -/
theorem invariant_of_exec {step : σ → α → Option σ} {s s' : σ} {as : List α} (Inv : σ → Prop)
    (hinit : Inv s) (hstep : ∀ {s s' : σ} {a : α}, Inv s → step s a = some s' → Inv s')
    (h : exec step s as = some s') : Inv s' := by
  induction as generalizing s with
  | nil => exact Option.some.inj h ▸ hinit
  | cons a as ih =>
      obtain ⟨s₁, hs₁, hrest⟩ := Option.bind_eq_some_iff.mp h
      exact ih (hstep hinit hs₁) hrest

/-- The listed actions, each run only if it meets the condition. -/
def execIf (step : σ → α → Option σ) (C : σ → α → Bool) : σ → List α → Option σ :=
  exec fun s a => if C s a then step s a else none

/-- **The invariant rule for computed runs under a condition.** What every listed action that meets
the condition keeps, the run keeps. -/
theorem invariant_of_execIf {step : σ → α → Option σ} {C : σ → α → Bool} {s s' : σ} {as : List α}
    (Inv : σ → Prop) (hinit : Inv s)
    (hstep : ∀ {s s' : σ} {a : α}, a ∈ as → Inv s → C s a = true → step s a = some s' → Inv s')
    (h : execIf step C s as = some s') : Inv s' := by
  induction as generalizing s with
  | nil => exact Option.some.inj h ▸ hinit
  | cons a as ih =>
      obtain ⟨s₁, hs₁, hrest⟩ := Option.bind_eq_some_iff.mp h
      obtain ⟨hC, hs₁⟩ := Option.ite_none_right_eq_some.mp hs₁
      exact ih (hstep List.mem_cons_self hinit hC hs₁)
        (fun hmem => hstep (List.mem_cons_of_mem _ hmem)) hrest

/-- **The rule for a condition that is exact.** If a good state stays good exactly at the steps
that meet the condition, and a bad one stays bad, then a run from a good state ends in a good one
exactly if all its steps meet the condition. The equivalence may rest on an invariant. -/
theorem good_iff_execIf {step : σ → α → Option σ} {C : σ → α → Bool} {Inv Good : σ → Prop}
    (hinv : ∀ {s s' : σ} {a : α}, Inv s → step s a = some s' → Inv s')
    (hiff : ∀ {s s' : σ} {a : α}, Inv s → step s a = some s' →
      (Good s' ↔ Good s ∧ C s a = true))
    {s s' : σ} {as : List α} (hs : Inv s) (hgood : Good s) (h : exec step s as = some s') :
    Good s' ↔ execIf step C s as = some s' := by
  have hback : ∀ {as : List α} {s : σ}, Inv s → exec step s as = some s' → Good s' → Good s := by
    intro as
    induction as with
    | nil => exact fun _ h hgood' => Option.some.inj h ▸ hgood'
    | cons a as ih =>
        intro s hs h hgood'
        obtain ⟨s₁, hs₁, hrest⟩ := Option.bind_eq_some_iff.mp h
        exact ((hiff hs hs₁).mp (ih (hinv hs hs₁) hrest hgood')).1
  induction as generalizing s with
  | nil => exact ⟨fun _ => h, fun _ => Option.some.inj h ▸ hgood⟩
  | cons a as ih =>
      obtain ⟨s₁, hs₁, hrest⟩ := Option.bind_eq_some_iff.mp h
      have hstep := hiff hs hs₁
      simp only [execIf, exec]
      by_cases hC : C s a = true
      · rw [if_pos hC, hs₁]
        exact ih (hinv hs hs₁) (hstep.mpr ⟨hgood, hC⟩) hrest
      · rw [if_neg hC]
        constructor
        · intro hgood'
          exact absurd (hstep.mp (hback (hinv hs hs₁) hrest hgood')).2 hC
        · intro hnone
          cases hnone

/-- **Concrete runs are derivations**: a computed run whose steps all meet the condition
is a run of the system. -/
theorem Reach.of_exec {step : σ → α → Option σ} {C : σ → α → Bool} {s₀ s : σ}
    (as : List α) (h : execIf step C s₀ as = some s) : Reach step C s₀ s := by
  induction as generalizing s₀ with
  | nil =>
      obtain rfl : s₀ = s := by simpa [execIf, exec] using h
      exact .refl
  | cons a as ih =>
      simp only [execIf, exec, Option.bind_eq_some_iff, Option.ite_none_right_eq_some] at h
      obtain ⟨s', ⟨hC, hs⟩, hrest⟩ := h
      exact Reach.trans (.tail .refl hC hs) (ih hrest)

/-- A state of a computed run that passes a test is a reachable state that passes it. -/
theorem Reach.exists_of_exec {step : σ → α → Option σ} {C : σ → α → Bool} {s₀ : σ}
    (as : List α) {P : σ → Prop} [DecidablePred P]
    (h : (execIf step C s₀ as).any (fun s => decide (P s)) = true) :
    ∃ s, Reach step C s₀ s ∧ P s := by
  obtain ⟨s, hs, hP⟩ := (Option.any_eq_true _ _).mp h
  exact ⟨s, .of_exec as hs, of_decide_eq_true hP⟩

/-- A computed run up to a state that passes one test, and from there a computed run, under
another condition, to a state that passes another. -/
theorem Reach.exists_of_exec_twice {step : σ → α → Option σ} {C D : σ → α → Bool} {s₀ : σ}
    (as bs : List α) {P Q : σ → Prop} [DecidablePred P] [DecidablePred Q]
    (h : (execIf step C s₀ as).any (fun s => decide (P s) &&
      (execIf step D s bs).any fun s' => decide (Q s')) = true) :
    ∃ s s', Reach step C s₀ s ∧ P s ∧ Reach step D s s' ∧ Q s' := by
  obtain ⟨s, hs, h⟩ := (Option.any_eq_true _ _).mp h
  rw [Bool.and_eq_true, decide_eq_true_eq] at h
  obtain ⟨s', hs', hQ⟩ := (Option.any_eq_true _ _).mp h.2
  exact ⟨s, s', .of_exec as hs, h.1, .of_exec bs hs', of_decide_eq_true hQ⟩

/-- The steps of **one operation alone**: actions all of its own (`mine`), from a state up
to the first state in which the operation has ended (`ended`). -/
inductive OwnRun (step : σ → α → Option σ) (mine : σ → α → Bool) (ended : σ → Bool) :
    σ → σ → Prop
  | last {s s' : σ} {a : α} :
      mine s a = true → step s a = some s' → ended s' = true → OwnRun step mine ended s s'
  | next {s s₁ s' : σ} {a : α} :
      mine s a = true → step s a = some s₁ → ended s₁ = false →
      OwnRun step mine ended s₁ s' → OwnRun step mine ended s s'

/-- **The rule for one operation.** A property that its own steps keep until it ends, and
that gives the result at the step that ends it, gives the result of the operation. -/
theorem OwnRun.final {step : σ → α → Option σ} {mine : σ → α → Bool} {ended : σ → Bool}
    {s s' : σ} (P Q : σ → Prop) (hrun : OwnRun step mine ended s s') (hP : P s)
    (hstep : ∀ {s s' : σ} {a : α}, P s → mine s a = true → step s a = some s' →
      (ended s' = true → Q s') ∧ (ended s' = false → P s')) : Q s' := by
  induction hrun with
  | last hm hs he => exact (hstep hP hm hs).1 he
  | next hm hs he _ ih => exact ih ((hstep hP hm hs).2 he)

/-- The listed actions as the run of one operation. -/
def ownExec (step : σ → α → Option σ) (mine : σ → α → Bool) (ended : σ → Bool) (s : σ) :
    List α → Option σ
  | [] => none
  | a :: as =>
      if mine s a then
        (step s a).bind fun s' =>
          if ended s' then (if as.isEmpty then some s' else none)
          else ownExec step mine ended s' as
      else none

/-- A computed run of an operation is a run of it. -/
theorem OwnRun.of_exec {step : σ → α → Option σ} {mine : σ → α → Bool} {ended : σ → Bool}
    {s s' : σ} (as : List α) (h : ownExec step mine ended s as = some s') :
    OwnRun step mine ended s s' := by
  induction as generalizing s with
  | nil => simp [ownExec] at h
  | cons a as ih =>
      simp only [ownExec, Option.ite_none_right_eq_some, Option.bind_eq_some_iff] at h
      obtain ⟨hm, s₁, hs, h⟩ := h
      cases he : ended s₁ with
      | false =>
          rw [he, if_neg Bool.false_ne_true] at h
          exact .next hm hs he (ih h)
      | true =>
          rw [he, if_pos rfl, Option.ite_none_right_eq_some, Option.some.injEq] at h
          exact .last hm (h.2 ▸ hs) (h.2 ▸ he)

/-- A computed run up to a state that passes one test, and from there a computed run of an
operation that passes another. -/
theorem OwnRun.exists_of_exec {step : σ → α → Option σ} {C mine : σ → α → Bool}
    {ended : σ → Bool} {s₀ : σ} (as bs : List α) {P Q : σ → Prop} [DecidablePred P]
    [DecidablePred Q]
    (h : (execIf step C s₀ as).any (fun s => decide (P s) &&
      (ownExec step mine ended s bs).any fun s' => decide (Q s')) = true) :
    ∃ s s', Reach step C s₀ s ∧ P s ∧ OwnRun step mine ended s s' ∧ Q s' := by
  obtain ⟨s, hs, h⟩ := (Option.any_eq_true _ _).mp h
  rw [Bool.and_eq_true, decide_eq_true_eq] at h
  obtain ⟨s', hs', hQ⟩ := (Option.any_eq_true _ _).mp h.2
  exact ⟨s, s', .of_exec as hs, h.1, .of_exec bs hs', of_decide_eq_true hQ⟩

end Lts

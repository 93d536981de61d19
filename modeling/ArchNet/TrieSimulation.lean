import ArchNet.TrieMatch
import Mathlib.Data.Option.Basic

/-!
# Tries That Answer Alike

Two tries whose nodes correspond, from the root on, give corresponding answers for every path.

## Conventions

An indeterminate pointer of `fallback_lookup` may hold anything. The answers of two tries are
compared where their indeterminate pointers hold corresponding things: the correspondence of the
nodes that a walk comes to (`R`) may be narrower than that of the nodes that are returned (`S`),
which includes what the pointers hold.

## Main definitions

* `Alike`: a correspondence of nodes that every step of a walk keeps.

## Main results

* `Alike.matchPath`: **the answers correspond**: the node, the parameters and the error.
-/

open Bytes

namespace ArchNet.Routing

variable {M : Type}

/-- **A correspondence of the nodes of two tries**: a segment leads from corresponding nodes to
corresponding nodes, which look alike to `match`. -/
structure Alike (env : Env) (t t' : TrieData M) (R : ℕ → ℕ → Prop) : Prop where
  strictRoute : t'.strictRoute = t.strictRoute
  maxFallbackDepth : t'.maxFallbackDepth = t.maxFallbackDepth
  root : R 0 0
  child : ∀ {p p'} (s : Text), R p p' → Option.Rel R (t.findChild p s) (t'.findChild p' s)
  colon : ∀ {p p'} (s : Text), R p p' →
    Option.Rel R (t.getColonNode env p s) (t'.getColonNode env p' s)
  endpoint : ∀ {p p'}, R p p' → (t'.deref p').endpoint = (t.deref p).endpoint
  name : ∀ {p p'}, R p p' → (t'.deref p').name = (t.deref p).name

/-- What two walks leave. -/
structure Walked.Rel (R : ℕ → ℕ → Prop) (w w' : Walked) : Prop where
  flag : w'.flag = w.flag
  parent : R w.parent w'.parent
  stack : List.Forall₂ (fun e e' : ℕ × ℕ => e'.1 = e.1 ∧ R e.2 e'.2) w.stack w'.stack
  params : w'.params = w.params

/-- What two matches return, the pipeline apart. -/
structure Matched.Rel (S : ℕ → ℕ → Prop) (m m' : Matched) : Prop where
  node : Option.Rel S m.node m'.node
  params : m'.params = m.params
  error : m'.error = m.error

/-- How two loops end. -/
inductive Ended.Rel (S : ℕ → ℕ → Prop) : Ended → Ended → Prop
  | died : Ended.Rel S .died .died
  | found {m m' : Matched} (h : m.Rel S m') : Ended.Rel S (.found m) (.found m')
  | empty : Ended.Rel S .empty .empty

section Simulation

variable {env : Env} {t t' : TrieData M} {R S : ℕ → ℕ → Prop} {p p' : ℕ}
  {stack stack' : FallbackStack} {segments : List Text} {garbage garbage' : ℕ → Option ℕ}

theorem rel_isSome {α β : Type} {r : α → β → Prop} {a : Option α} {b : Option β}
    (h : Option.Rel r a b) : b.isSome = a.isSome := by
  cases h <;> rfl

/-- **Walks correspond.** -/
theorem Alike.walk (h : Alike env t t' R) (record : Params → Text → Text → Params) (i : ℕ)
    (segments : List Text) (params : Params) (hp : R p p')
    (hstack : List.Forall₂ (fun e e' : ℕ × ℕ => e'.1 = e.1 ∧ R e.2 e'.2) stack stack') :
    (Routing.walk env t record i p segments stack params).Rel R
      (Routing.walk env t' record i p' segments stack' params) := by
  induction segments generalizing i p p' stack stack' params with
  | nil => exact ⟨rfl, hp, hstack, rfl⟩
  | cons s segments ih =>
      rw [Routing.walk, Routing.walk, TrieData.findMatchedChild, TrieData.findMatchedChild]
      have hchild := h.child s hp
      have hcolon := h.colon s hp
      generalize t.findChild p s = c at hchild ⊢
      generalize t'.findChild p' s = c' at hchild ⊢
      generalize t.getColonNode env p s = d at hcolon ⊢
      generalize t'.getColonNode env p' s = d' at hcolon ⊢
      cases hchild with
      | some hc =>
          cases hcolon with
          | some hd =>
              dsimp only
              rw [h.name hc]
              exact ih _ _ hc (.cons ⟨rfl, hd⟩ hstack)
          | none =>
              dsimp only
              rw [h.name hc]
              exact ih _ _ hc hstack
      | none =>
          cases hcolon with
          | some hd =>
              dsimp only
              rw [h.name hd, if_pos rfl, if_pos rfl]
              exact ih _ _ hd hstack
          | none => exact ⟨rfl, hp, hstack, rfl⟩

/-- The ends of corresponding walks. -/
theorem Alike.ended (h : Alike env t t' R) {w w' : Walked} (hw : w.Rel R w') :
    (w'.flag && (t'.deref w'.parent).endpoint) = (w.flag && (t.deref w.parent).endpoint) := by
  rw [hw.flag, h.endpoint hw.parent]

/-- What two calls of `fallback_lookup` leave. -/
structure LookupResult.Rel (R S : ℕ → ℕ → Prop) (lr lr' : LookupResult) : Prop where
  first : lr'.first = lr.first
  second : lr.second.Rel S lr'.second
  stack : List.Forall₂ (fun e e' : ℕ × ℕ => e'.1 = e.1 ∧ R e.2 e'.2) lr.stack lr'.stack
  params : lr'.params = lr.params

/-- **One fallback**: the pointers that are returned hold what they held before. -/
theorem Alike.fallbackLookup (h : Alike env t t' R) {g g' : Option ℕ} (hg : Option.Rel S g g')
    {params : Params}
    (hstack : List.Forall₂ (fun e e' : ℕ × ℕ => e'.1 = e.1 ∧ R e.2 e'.2) stack stack') :
    (Routing.fallbackLookup env t g segments stack params).Rel R S
      (Routing.fallbackLookup env t' g' segments stack' params) := by
  cases hstack with
  | nil => exact ⟨rfl, ⟨hg, rfl, rfl⟩, .nil, rfl⟩
  | @cons e e' stack stack' he hstack =>
      obtain ⟨i, c⟩ := e
      obtain ⟨i', c'⟩ := e'
      obtain ⟨hi, hc⟩ := he
      change i' = i at hi
      subst hi
      rw [Routing.fallbackLookup, Routing.fallbackLookup, h.name hc]
      have hwalk := h.walk (fun params _ _ => params) (i' + 1) (segments.drop (i' + 1))
        (mixin params (recordParam [] (t.deref c).name (segments.getD i' []))) hc hstack
      refine ⟨?_, ⟨hg, rfl, rfl⟩, hwalk.stack, hwalk.params⟩
      rw [h.ended hwalk]
      split_ifs
      · rfl
      · exact rel_isSome hg

/-- The loop of `_match`, with what it leaves in `params`. -/
theorem Alike.retryLoop (h : Alike env t t' R) (segments : List Text) (left : ℕ)
    (hg : ∀ k, Option.Rel S (garbage k) (garbage' k)) (params : Params)
    (hstack : List.Forall₂ (fun e e' : ℕ × ℕ => e'.1 = e.1 ∧ R e.2 e'.2) stack stack') :
    Ended.Rel S (Routing.retryLoop env t garbage segments left stack params).1
        (Routing.retryLoop env t' garbage' segments left stack' params).1 ∧
      (Routing.retryLoop env t' garbage' segments left stack' params).2 =
        (Routing.retryLoop env t garbage segments left stack params).2 := by
  induction left generalizing stack stack' params with
  | zero => exact ⟨.died, rfl⟩
  | succ left ih =>
      have hlr : LookupResult.Rel R S
          (Routing.fallbackLookup env t (garbage left) segments stack params) _ :=
        h.fallbackLookup (hg left) hstack
      have hempty :
          (Routing.fallbackLookup env t' (garbage' left) segments stack' params).stack = [] ↔
            (Routing.fallbackLookup env t (garbage left) segments stack params).stack = [] := by
        rw [← List.length_eq_zero_iff, ← List.length_eq_zero_iff, hlr.stack.length_eq]
      rw [Routing.retryLoop, Routing.retryLoop, hlr.first, hlr.params]
      simp only [hempty]
      split_ifs
      · exact ⟨.found hlr.second, rfl⟩
      · exact ⟨.empty, rfl⟩
      · exact ih _ hlr.stack

/-- The end of `_match`. -/
theorem Matched.Rel.finishMatch {m m' : Matched} {params : Params} (hm : m.Rel S m')
    (hpipeline : ∀ {i j}, S i j → (getPipeline t' j).isSome = (getPipeline t i).isSome) :
    Option.Rel (Matched.Rel S) (Routing.finishMatch t m params)
      (Routing.finishMatch t' m' params) := by
  have hnode := hm.node
  rw [Routing.finishMatch, Routing.finishMatch]
  dsimp only
  generalize hi : m.node = i at hnode ⊢
  generalize hj : m'.node = j at hnode ⊢
  cases hnode with
  | none => exact .some ⟨.none, rfl, hm.error⟩
  | @some i j hij =>
      have hsome := hpipeline hij
      dsimp only
      cases hpi : getPipeline t i with
      | none =>
          rw [hpi, Option.isSome_none, Option.isSome_eq_false_iff,
            Option.isNone_iff_eq_none] at hsome
          rw [hsome]
          exact .none
      | some l =>
          rw [hpi, Option.isSome_some] at hsome
          obtain ⟨l', hl'⟩ := Option.isSome_iff_exists.mp hsome
          rw [hl']
          exact .some ⟨.some hij, rfl, hm.error⟩

/-- **One attempt.** -/
theorem Alike.matchOnce (h : Alike env t t' R) (hRS : ∀ {i j}, R i j → S i j)
    (hpipeline : ∀ {i j}, S i j → (getPipeline t' j).isSome = (getPipeline t i).isSome)
    (hg : ∀ k, Option.Rel S (garbage k) (garbage' k)) (path : Text) {m m' : Matched}
    (hm : m.Rel S m') : Option.Rel (Matched.Rel S) (Routing.matchOnce env t garbage path m)
      (Routing.matchOnce env t' garbage' path m') := by
  have hwalk := h.walk recordParam 0 (segmentsOfPath path) m.params h.root .nil
  have hend := h.ended hwalk
  obtain ⟨hended, hparams⟩ := h.retryLoop (segmentsOfPath path)
    t.maxFallbackDepth.toNat hg
    (Routing.walk env t recordParam 0 0 (segmentsOfPath path) [] m.params).params hwalk.stack
  rw [Routing.matchOnce, Routing.matchOnce]
  dsimp only
  rw [hm.params, hwalk.params, h.maxFallbackDepth, hend]
  generalize Routing.walk env t recordParam 0 0 (segmentsOfPath path) [] m.params = w at *
  generalize Routing.walk env t' recordParam 0 0 (segmentsOfPath path) [] m.params = w' at *
  generalize Routing.retryLoop env t garbage (segmentsOfPath path) t.maxFallbackDepth.toNat
    w.stack w.params = r at *
  generalize Routing.retryLoop env t' garbage' (segmentsOfPath path) t.maxFallbackDepth.toNat
    w'.stack w.params = r' at *
  obtain ⟨ended, params⟩ := r
  obtain ⟨ended', params'⟩ := r'
  dsimp only at hended hparams
  subst hparams
  have hnode : ∀ {n n' : Option ℕ}, Option.Rel S n n' →
      Matched.Rel S { m with node := n, params := w.params }
        { m' with node := n', params := w.params } := fun hn => ⟨hn, rfl, hm.error⟩
  cases w.flag && (t.deref w.parent).endpoint with
  | true => exact (hnode (.some (hRS hwalk.parent))).finishMatch hpipeline
  | false =>
      cases hended with
      | died => exact .some ⟨.none, rfl, rfl⟩
      | found hfound => exact hfound.finishMatch hpipeline
      | empty => exact (hnode .none).finishMatch hpipeline

/-- **The answers correspond**, where the indeterminate pointers hold corresponding things. -/
theorem Alike.matchPath (h : Alike env t t' R) (hRS : ∀ {i j}, R i j → S i j)
    (hpipeline : ∀ {i j}, S i j → (getPipeline t' j).isSome = (getPipeline t i).isSome)
    {garbage garbage' : Bool → ℕ → Option ℕ} (hg : ∀ b k, Option.Rel S (garbage b k) (garbage' b k))
    {i j : Option ℕ} (hij : Option.Rel S i j) (path : Text) : Option.Rel (Matched.Rel S)
      (t.matchPath env garbage i path) (t'.matchPath env garbage' j path) := by
  rw [TrieData.matchPath, TrieData.matchPath]
  dsimp only
  split_ifs
  · exact .some ⟨hij, rfl, rfl⟩
  · exact .some ⟨hij, rfl, rfl⟩
  have hfirst : Option.Rel (Matched.Rel S)
      (Routing.matchOnce env t (garbage false) path { node := i })
      (Routing.matchOnce env t' (garbage' false) path { node := j }) :=
    h.matchOnce hRS hpipeline (hg false) path ⟨hij, rfl, rfl⟩
  generalize Routing.matchOnce env t (garbage false) path { node := i } = r at hfirst ⊢
  generalize Routing.matchOnce env t' (garbage' false) path { node := j } = r' at hfirst ⊢
  cases hfirst with
  | none => exact .none
  | @some m m' hm =>
      rw [Option.bind_some, Option.bind_some]
      have hnone : m'.node = none ↔ m.node = none := by
        rw [← Option.isNone_iff_eq_none, ← Option.isNone_iff_eq_none, ← Option.not_isSome,
          ← Option.not_isSome, rel_isSome hm.node]
      simp only [h.strictRoute, hnone]
      split_ifs
      · exact h.matchOnce hRS hpipeline (hg true) _ hm
      · exact .some hm

end Simulation

end ArchNet.Routing

import ArchNet.GraftAttempts

/-!
# Rejected Patterns

A pattern that `Trie::add_node` rejects at a later segment leaves the nodes of the segments before
it in the trie, with no endpoint among them. They are seen by the walks of `Trie::match`: where a
walk had a way on, it has two of them from then on, so that a fallback is attempted if it finds
nothing.

## Conventions

The nodes that are left behind are said by the trie before the insertion and the pattern
(`TrieData.growth`).

## Main definitions

* `NoTrace`: what is left behind is not seen for a path.

## Main results

* `Graft.same_iff`: the attempts that are made decide whether the answer is the same.
* `rejected_iff`: **a rejected pattern leaves the answer for a path as it was, exactly if what is
  left behind is not seen**.
-/

open Bytes

namespace ArchNet.Routing

open Backtrack

variable {M : Type}

section Meaning

variable (env : Env) (t : TrieData M)

/-- What the attempts for a path would record with nodes with these labels below the node. -/
def pathEntries (q : ℕ) (labels : List Label) (path : Text) : List (Text × Text) :=
  recordedWith env t q labels 0 (segmentsOfPath path) ++
    if Again env t path then recordedWith env t q labels 0 (segmentsOfPath path.dropLast) else []

/-- **What a pattern leaves behind is not seen** for a path: a fallback is attempted anyway, or
the attempts go as before and what the names of the nodes left behind record is what is recorded
without them. -/
def NoTrace (pattern path : Text) : Prop :=
  path.head? = some slash → Calm env t path →
    Stands env t (t.growth env pattern).1 (t.growth env pattern).2 (segmentsOfPath path) ∧
      (Again env t path → Stands env t (t.growth env pattern).1 (t.growth env pattern).2
        (segmentsOfPath path.dropLast)) ∧
      ∀ name, (recordAll [] (pathEntries env t (t.growth env pattern).1 (t.growth env pattern).2
          path)).lookup name = (recordAll [] (foundEntries env t path)).lookup name

end Meaning

section Attempts

variable {env : Env} {t t' : TrieData M} {q : ℕ} {labels : List Label} {w : List Text} {path : Text}

/-- **An attempt that was not settled** is not settled. -/
theorem Graft.unsettled (g : Graft t t' q labels none) (ht : t.Ok) (ht' : t'.Ok)
    (hgrows : t.Grows t') (h : ¬ Settled env t w) : ¬ Settled env t' w := by
  by_cases hstands : Stands env t q labels w
  · exact mt (g.stands ht ht' hgrows (by simp) (.inl rfl) hstands).2.mp h
  · refine (g.lost ht ht' hgrows (by simp) (.inl rfl) hstands).resolve_right ?_
    rintro ⟨hlimit, -⟩
    exact h fun _ => .inl hlimit

/-- Where a fallback was attempted for a path one is attempted still. -/
theorem Graft.not_calm (g : Graft t t' q labels none) (ht : t.Ok) (ht' : t'.Ok)
    (hgrows : t.Grows t') (h : ¬ Calm env t path) : ¬ Calm env t' path := by
  rintro ⟨hfirst', hsecond'⟩
  have hfirst : Settled env t (segmentsOfPath path) := by
    by_contra hnot
    exact g.unsettled ht ht' hgrows hnot hfirst'
  rw [Calm, and_iff_right hfirst, Classical.not_imp, Classical.not_imp] at h
  obtain ⟨hnone, hretried, hunsettled⟩ := h
  -- the second attempt is not settled, so that the limit allows one
  have hlimit : t.maxFallbackDepth.toNat ≠ 0 := by
    rw [Settled, Classical.not_imp, not_or] at hunsettled
    exact hunsettled.2.1
  have hstands : Stands env t q labels (segmentsOfPath path) := by
    by_contra hnot
    rcases g.lost ht ht' hgrows (by simp) (.inl rfl) hnot with hlost | ⟨hzero, -⟩
    · exact hlost hfirst'
    · exact hlimit hzero
  obtain ⟨hsame, -⟩ := g.stands ht ht' hgrows (by simp) (.inl rfl) hstands
  have hretried' : Retried t' path := ⟨hgrows.strictRoute.trans hretried.1, hretried.2⟩
  exact g.unsettled ht ht' hgrows hunsettled (hsecond' (hsame.trans hnone) hretried')

theorem again_iff (hgrows : t.Grows t')
    (hsame : (descent env t' (segmentsOfPath path)).1 = (descent env t (segmentsOfPath path)).1) :
    Again env t' path ↔ Again env t path := by
  rw [Again, Again, Retried, Retried, hsame, hgrows.strictRoute]

/-- What the attempts for a path record in the grown trie. -/
theorem Graft.foundEntries_eq (g : Graft t t' q labels none) (ht : t.Ok)
    (hgrows : t.Grows t')
    (hsame : (descent env t' (segmentsOfPath path)).1 = (descent env t (segmentsOfPath path)).1) :
    foundEntries env t' path = pathEntries env t q labels path := by
  obtain ⟨r, hr, -⟩ := ht.root
  rw [foundEntries, pathEntries, attemptEntries, attemptEntries, g.namesOf_way ht hr,
    g.namesOf_way ht hr]
  exact congrArg _ (if_congr (again_iff hgrows hsame) rfl rfl)

/-- **The attempts that are made decide**: where an answer was given the same one is given, exactly
if each of them stands and the parameters are the same. -/
theorem Graft.same_iff (g : Graft t t' q labels none) (ht : t.Ok) (ht' : t'.Ok)
    (hgrows : t.Grows t') (hcalm : Calm env t path) :
    (Calm env t' path ∧ foundNode env t' path = foundNode env t path ∧
        foundError env t' path = foundError env t path ∧
        ∀ name, (recordAll [] (foundEntries env t' path)).lookup name =
          (recordAll [] (foundEntries env t path)).lookup name) ↔
      Stands env t q labels (segmentsOfPath path) ∧
        (Again env t path → Stands env t q labels (segmentsOfPath path.dropLast)) ∧
        ∀ name, (recordAll [] (pathEntries env t q labels path)).lookup name =
          (recordAll [] (foundEntries env t path)).lookup name := by
  constructor
  · rintro ⟨hcalm', hnode, herror, hparams⟩
    have hstands : Stands env t q labels (segmentsOfPath path) := by
      by_contra hnot
      rcases g.lost ht ht' hgrows (by simp) (.inl rfl) hnot with hlost | ⟨hzero, hsome, hnone⟩
      · exact hlost hcalm'.1
      · -- the limit allows no attempt, and now the first one finds nothing
        rw [foundError, foundError, hnone, hgrows.maxFallbackDepth, hzero,
          Option.isNone_eq_false_iff.mpr (Option.isSome_iff_ne_none.mpr hsome)] at herror
        cases herror
    have hsame := (g.stands ht ht' hgrows (by simp) (.inl rfl) hstands).1
    refine ⟨hstands, fun hagain => ?_, g.foundEntries_eq ht hgrows hsame ▸ hparams⟩
    have hagain' := (again_iff hgrows hsame).mpr hagain
    by_contra hnot
    rcases g.lost ht ht' hgrows (by simp) (.inl rfl) hnot with hlost | ⟨-, hsome, hnone⟩
    · exact hlost (hcalm'.2 hagain'.1 hagain'.2)
    · rw [foundNode, foundNode, if_pos hagain, if_pos hagain', hnone] at hnode
      exact hsome hnode.symm
  · rintro ⟨hfirst, hsecond, hparams⟩
    obtain ⟨hsame, hsettled⟩ := g.stands ht ht' hgrows (by simp) (.inl rfl) hfirst
    have hagain := again_iff hgrows hsame
    have hlater : Again env t path → _ := fun h =>
      g.stands ht ht' hgrows (by simp) (.inl rfl) (hsecond h)
    refine ⟨⟨hsettled.mpr hcalm.1, fun hnone hretried => ?_⟩, ?_, ?_, ?_⟩
    · have hmore := hagain.mp ⟨hnone, hretried⟩
      exact (hlater hmore).2.mpr (hcalm.2 hmore.1 hmore.2)
    · rw [foundNode, foundNode]
      by_cases h : Again env t path
      · rw [if_pos h, if_pos (hagain.mpr h), (hlater h).1]
      · rw [if_neg h, if_neg (mt hagain.mp h), hsame]
    · rw [foundError, foundError, hsame, hgrows.maxFallbackDepth]
    · rw [g.foundEntries_eq ht hgrows hsame]
      exact hparams

end Attempts

/-- **A rejected pattern leaves the answer for a path as it was**, exactly if what it leaves behind
is not seen. -/
theorem rejected_iff (env : Env) (t : Trie M) (pattern path : Text)
    (hrejected : (t.addNode env pattern).2.isOk = false) :
    SameAnswers env t.toTrieData (t.addNode env pattern).1.toTrieData path ↔
      NoTrace env t.toTrieData pattern path := by
  set d := t.toTrieData with hdata
  set d' := (t.addNode env pattern).1.toTrieData with hdata'
  have ht : d.Ok := t.ok
  have ht' : d'.Ok := (t.addNode env pattern).1.ok
  have hgrows : d.Grows d' := (ht.addNode env pattern).grows
  have hnone : (d.addNode env pattern).2.toOption = none := by
    have hresult : (d.addNode env pattern).2.isOk = false := hrejected
    cases hr : (d.addNode env pattern).2 with
    | error e => rfl
    | ok c =>
        rw [hr] at hresult
        cases hresult
  have g : Graft d d' (d.growth env pattern).1 (d.growth env pattern).2 none :=
    hnone ▸ addNode_graft ht env pattern
  by_cases hhead : path.head? = some slash
  · obtain ⟨rest, rfl⟩ : ∃ rest, path = slash :: rest := List.head?_eq_some_iff.mp hhead
    by_cases hcalm : Calm env d (slash :: rest)
    · rw [sameAnswers_iff ht ht' hgrows hcalm, NoTrace, forall_prop_of_true hhead,
        forall_prop_of_true hcalm]
      exact g.same_iff ht ht' hgrows hcalm
    · refine iff_of_true ?_ fun _ h => absurd h hcalm
      exact sameAnswers_of_not_calm ht ht' hcalm (g.not_calm ht ht' hgrows hcalm)
  · exact iff_of_true (sameAnswers_no_slash hhead) fun h => absurd h hhead

/-- The trie of the route `/:id`. -/
def oneParam : Trie Unit := ((Trie.new anyName).addNode anyName (ascii "/:id")).1

/-- `/b` is matched by `/:id` before and after `/a/:x()` has been rejected. -/
theorem rejected_other_path : SameAnswers anyName oneParam.toTrieData
    (oneParam.addNode anyName (ascii "/a/:x()")).1.toTrieData (ascii "/b") := by
  refine (rejected_iff anyName oneParam (ascii "/a/:x()") (ascii "/b") (by decide)).mpr ?_
  intro _ _
  have hgrowth : oneParam.toTrieData.growth anyName (ascii "/a/:x()") =
      (0, [.literal (ascii "a")]) := by decide
  have hfound : (descent anyName oneParam.toTrieData (segmentsOfPath (ascii "/b"))).1 = some 1 := by
    decide
  rw [hgrowth]
  refine ⟨?_, fun hagain => ?_, fun name => ?_⟩
  · rintro l ls hl ⟨s, ⟨u, v, hw, -⟩, hacc, -⟩
    obtain ⟨rfl, -⟩ := List.cons.inj hl
    have hsegments : segmentsOfPath (ascii "/b") = [ascii "b"] := by decide
    have hmem : s ∈ [ascii "b"] := by
      rw [← hsegments, hw]
      exact List.mem_append_right _ List.mem_cons_self
    have hother : (Label.literal (ascii "a")).accepts anyName (ascii "b") = false := by decide
    rw [List.mem_singleton.mp hmem, hother] at hacc
    cases hacc
  · rw [hagain.1] at hfound
    cases hfound
  · have hentries : pathEntries anyName oneParam.toTrieData 0 [.literal (ascii "a")] (ascii "/b") =
        foundEntries anyName oneParam.toTrieData (ascii "/b") := by decide
    rw [hentries]

/-- `/a` is matched by `/:id`. The rejected pattern `/a/:x()` leaves the node of `a` behind, which
is no endpoint: from then on a fallback is attempted for `/a`, and there is no answer. -/
theorem rejected_shadows :
    (oneParam.addNode anyName (ascii "/a/:x()")).2.isOk = false ∧
      ¬ SameAnswers anyName oneParam.toTrieData
        (oneParam.addNode anyName (ascii "/a/:x()")).1.toTrieData (ascii "/a") := by
  refine ⟨by decide, ?_⟩
  have hpath : ascii "/a" = slash :: ascii "a" := by decide
  rw [hpath]
  intro hsame
  have hfound : (descent anyName oneParam.toTrieData (segmentsOfPath (slash :: ascii "a"))).1 =
      some 1 := by decide
  have hcalm : Calm anyName oneParam.toTrieData (slash :: ascii "a") := (calm_of_found hfound).1
  obtain ⟨m, -, hnode, herror, hparams, hpipeline⟩ := @matchPath_calm Unit anyName
    oneParam.toTrieData (fun _ _ => none) none (ascii "a") oneParam.ok hcalm
  have hanswer : Answers anyName oneParam.toTrieData (slash :: ascii "a") m :=
    (answers_iff oneParam.ok).mpr ⟨hcalm, hnode, herror, fun _ => by rw [hparams], hpipeline⟩
  obtain ⟨m', hm', -⟩ := (hsame m).mp hanswer (fun _ _ => some 9) none
  have hlost : (oneParam.addNode anyName (ascii "/a/:x()")).1.toTrieData.matchPath anyName
      (fun _ _ => some 9) none (slash :: ascii "a") = none := by decide
  rw [hlost] at hm'
  cases hm'

end ArchNet.Routing

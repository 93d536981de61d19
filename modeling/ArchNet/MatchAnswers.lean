import ArchNet.RouteParams

/-!
# The Answer for a Path

What `Trie::match` answers for a path whatever the indeterminate pointers of `fallback_lookup`
hold, so that the answers of two tries can be compared.

## Conventions

An answer is settled if no fallback is attempted for the path. Where one is attempted the result is
what an indeterminate pointer held, and there is no answer (`Answers`).

Parameters are compared as maps.

## Main definitions

* `Settled`, `Calm`: no fallback is attempted, in one attempt and in all that are made.
* `foundNode`, `foundError`, `foundEntries`: the answer, read off the walks.
* `Answers`, `SameAnswers`: the answer for a path, and that two tries give the same one.

## Main results

* `answers_iff`: what is answered for a path.
* `sameAnswers_iff`: **two tries give the same answer exactly if what is read off the walks is the
  same**, or none of them gives one.
-/

open Bytes

namespace ArchNet.Routing

open Backtrack

variable {M : Type}

section Meaning

variable (env : Env) (t : TrieData M)

/-- No fallback is attempted. -/
def Settled (w : List Text) : Prop :=
  (descent env t w).1 = none → t.maxFallbackDepth.toNat = 0 ∨ fallbacks env t w = 0

/-- No fallback is attempted for the path, in none of the attempts that are made for it. -/
def Calm (path : Text) : Prop :=
  Settled env t (segmentsOfPath path) ∧
    ((descent env t (segmentsOfPath path)).1 = none → Retried t path →
      Settled env t (segmentsOfPath path.dropLast))

/-- A second attempt is made. -/
abbrev Again (path : Text) : Prop :=
  (descent env t (segmentsOfPath path)).1 = none ∧ Retried t path

/-- The node that is found. -/
def foundNode (path : Text) : Option ℕ :=
  if Again env t path then (descent env t (segmentsOfPath path.dropLast)).1
  else (descent env t (segmentsOfPath path)).1

/-- The error: the limit allows no attempt, and the first walk finds nothing. -/
def foundError (path : Text) : Bool :=
  (descent env t (segmentsOfPath path)).1.isNone && t.maxFallbackDepth.toNat == 0

/-- What one attempt records. -/
def attemptEntries (w : List Text) : List (Text × Text) := namesOf t (way env t 0 w) w

/-- What the attempts record. -/
def foundEntries (path : Text) : List (Text × Text) :=
  attemptEntries env t (segmentsOfPath path) ++
    if Again env t path then attemptEntries env t (segmentsOfPath path.dropLast) else []

/-- **The answer for a path**, whatever the indeterminate pointers hold. -/
def Answers (path : Text) (m : Matched) : Prop :=
  ∀ garbage indeterminate, ∃ m', t.matchPath env garbage indeterminate path = some m' ∧
    m'.node = m.node ∧ m'.error = m.error ∧ m'.pipeline = m.pipeline ∧
      ∀ name, m'.params.lookup name = m.params.lookup name

end Meaning

/-- **The same answer**: the node, the error, the pipeline and the parameters, or no answer. -/
def SameAnswers (env : Env) (t t' : TrieData M) (path : Text) : Prop :=
  ∀ m, Answers env t path m ↔ Answers env t' path m

section Attempt

variable {env : Env} {t : TrieData M} {matched : Matched} {garbage : ℕ → Option ℕ} {path : Text}
  {w : List Text}

theorem settled_iff : Settled env t w ↔ ((descent env t w).1 = none →
    t.maxFallbackDepth.toNat = 0 ∨ (descent env t w).2 = []) := by
  exact imp_congr_right fun h => or_congr_right (fallbacks_eq_zero_iff h)

/-- **A settled attempt**, in full. -/
theorem matchOnce_settled (ht : t.Ok) (h : Settled env t (segmentsOfPath path))
    (hempty : matched.pipeline = []) :
    ∃ m, matchOnce env t garbage path matched = some m ∧
      m.node = (descent env t (segmentsOfPath path)).1 ∧
      m.error = (matched.error || foundError env t path) ∧
      m.params = recordAll matched.params (attemptEntries env t (segmentsOfPath path)) ∧
      HasPipeline t m := by
  obtain ⟨m, hm⟩ := @matchOnce_defined M env t matched garbage path ht h
  obtain ⟨hnode, hparams⟩ := matchOnce_params ht hm h
  refine ⟨m, hm, hnode, ?_, hparams, matchOnce_pipeline ht hm hempty⟩
  rw [foundError]
  cases hd : (descent env t (segmentsOfPath path)).1 with
  | some n =>
      obtain ⟨m', -, hm', -, herror, -⟩ := @matchOnce_direct M env t matched n garbage path ht hd
      obtain rfl := Option.some.inj (hm'.symm.trans hm)
      simpa using herror
  | none =>
      rcases Nat.eq_zero_or_pos t.maxFallbackDepth.toNat with hlimit | hlimit
      · obtain ⟨m', hm', -, herror, -⟩ := @matchOnce_died M env t matched garbage path hd hlimit
        obtain rfl := Option.some.inj (hm'.symm.trans hm)
        simp [herror, hlimit]
      · obtain ⟨m', hm', -, herror, -⟩ := @matchOnce_empty M env t matched garbage path hd
          hlimit.ne' ((h hd).resolve_left hlimit.ne')
        obtain rfl := Option.some.inj (hm'.symm.trans hm)
        simp [herror, hlimit.ne']

/-- An attempt that is not settled has no result where the indeterminate pointers dangle. -/
theorem matchOnce_unsettled (h : ¬ Settled env t (segmentsOfPath path)) :
    matchOnce env t (fun _ => some t.nodes.length) path matched = none := by
  rw [Settled, Classical.not_imp, not_or] at h
  exact matchOnce_dangling h.1 h.2.1 h.2.2 node?_length fun _ => rfl

end Attempt

section Path

variable {env : Env} {t t' : TrieData M} {garbage : Bool → ℕ → Option ℕ}
  {indeterminate : Option ℕ} {rest path : Text} {m : Matched}

theorem recordAll_append (params : Params) (front back : List (Text × Text)) :
    recordAll params (front ++ back) = recordAll (recordAll params front) back :=
  List.foldl_append

/-- **Where no fallback is attempted** the result is read off the walks. -/
theorem matchPath_calm (ht : t.Ok) (h : Calm env t (slash :: rest)) :
    ∃ m, t.matchPath env garbage indeterminate (slash :: rest) = some m ∧
      m.node = foundNode env t (slash :: rest) ∧ m.error = foundError env t (slash :: rest) ∧
      m.params = recordAll [] (foundEntries env t (slash :: rest)) ∧ HasPipeline t m := by
  obtain ⟨m, hm, hnode, herror, hparams, hpipeline⟩ := @matchOnce_settled M env t
    { node := indeterminate } (garbage false) (slash :: rest) ht h.1 rfl
  rw [Bool.false_or] at herror
  by_cases hagain : Again env t (slash :: rest)
  · have hnone : m.node = none := hnode.trans hagain.1
    obtain ⟨m', hm', hnode', herror', hparams', hpipeline'⟩ := @matchOnce_settled M env t m
      (garbage true) (slash :: rest).dropLast ht (h.2 hagain.1 hagain.2) (hpipeline.2 hnone)
    refine ⟨m', ?_, ?_, ?_, ?_, hpipeline'⟩
    · rw [matchPath_of_retry hm hnone hagain.2, hm']
    · rw [foundNode, if_pos hagain, hnode']
    · rw [herror', herror, foundError, foundError, hagain.1, Option.isNone_none, Bool.true_and]
      cases t.maxFallbackDepth.toNat == 0 with
      | true => rfl
      | false => rw [Bool.and_false, Bool.or_false]
    · rw [foundEntries, if_pos hagain, recordAll_append, hparams', hparams]
  · refine ⟨m, matchPath_of_some hm fun hnone hretried => hagain ⟨hnode.symm.trans hnone, hretried⟩,
      ?_, herror, ?_, hpipeline⟩
    · rw [foundNode, if_neg hagain, hnode]
    · rw [foundEntries, if_neg hagain, List.append_nil, hparams]

/-- **Where a fallback is attempted** there is no result if the indeterminate pointers dangle. -/
theorem matchPath_not_calm (ht : t.Ok) (h : ¬ Calm env t (slash :: rest)) :
    t.matchPath env (fun _ _ => some t.nodes.length) none (slash :: rest) = none := by
  by_cases hfirst : Settled env t (segmentsOfPath (slash :: rest))
  · rw [Calm, and_iff_right hfirst, Classical.not_imp, Classical.not_imp] at h
    obtain ⟨hnone, hretried, hunsettled⟩ := h
    obtain ⟨m, hm, hnode, -⟩ := @matchOnce_settled M env t { node := none }
      (fun _ => some t.nodes.length) (slash :: rest) ht hfirst rfl
    rw [matchPath_of_retry hm (hnode.trans hnone) hretried]
    exact matchOnce_unsettled hunsettled
  · exact matchPath_of_none (matchOnce_unsettled hfirst)

/-- What is answered for a path. -/
theorem answers_iff (ht : t.Ok) : Answers env t (slash :: rest) m ↔
    Calm env t (slash :: rest) ∧ m.node = foundNode env t (slash :: rest) ∧
      m.error = foundError env t (slash :: rest) ∧
      (∀ name, m.params.lookup name =
        (recordAll [] (foundEntries env t (slash :: rest))).lookup name) ∧ HasPipeline t m := by
  constructor
  · intro h
    have hcalm : Calm env t (slash :: rest) := by
      by_contra hnot
      obtain ⟨m', hm', -⟩ := h (fun _ _ => some t.nodes.length) none
      rw [matchPath_not_calm ht hnot] at hm'
      cases hm'
    obtain ⟨m', hm', hnode', herror', hpipeline', hparams'⟩ := h (fun _ _ => none) none
    obtain ⟨m'', hm'', hnode, herror, hparams, hpipeline⟩ :=
      @matchPath_calm M env t (fun _ _ => none) none rest ht hcalm
    obtain rfl := Option.some.inj (hm'.symm.trans hm'')
    refine ⟨hcalm, hnode'.symm.trans hnode, herror'.symm.trans herror, fun name => ?_, ?_⟩
    · rw [← hparams', hparams]
    · rw [HasPipeline, ← hnode', ← hpipeline']
      exact hpipeline
  · rintro ⟨hcalm, hnode, herror, hparams, hpipeline⟩ garbage indeterminate
    obtain ⟨m', hm', hnode', herror', hparams', hpipeline'⟩ :=
      @matchPath_calm M env t garbage indeterminate rest ht hcalm
    refine ⟨m', hm', hnode'.trans hnode.symm, herror'.trans herror.symm, ?_, fun name => ?_⟩
    · cases hn : m.node with
      | none =>
          have hn' : m'.node = none := (hnode'.trans hnode.symm).trans hn
          rw [hpipeline.2 hn, hpipeline'.2 hn']
      | some n =>
          have hn' : m'.node = some n := (hnode'.trans hnode.symm).trans hn
          exact Option.some.inj ((hpipeline'.1 n hn').symm.trans (hpipeline.1 n hn))
    · rw [hparams', hparams]

/-- **What the first attempt finds** is the answer. -/
theorem calm_of_found {n : ℕ} (h : (descent env t (segmentsOfPath path)).1 = some n) :
    Calm env t path ∧ foundNode env t path = some n ∧ foundError env t path = false := by
  have hsome : (descent env t (segmentsOfPath path)).1 ≠ none := by
    rw [h]
    exact Option.some_ne_none n
  refine ⟨⟨fun hnone => absurd hnone hsome, fun hnone => absurd hnone hsome⟩, ?_, ?_⟩
  · rw [foundNode, if_neg fun hagain => hsome hagain.1, h]
  · rw [foundError, h, Option.isNone_some, Bool.false_and]

/-- A path leads to the node that is found. -/
theorem pathTo_foundNode {n : ℕ} (h : foundNode env t path = some n) : ∃ l, PathTo t n l := by
  rw [foundNode] at h
  split_ifs at h
  · exact ⟨_, (pathTo_way h).1⟩
  · exact ⟨_, (pathTo_way h).1⟩

/-- The pipeline of the node that is found stays while the trie grows. -/
theorem hasPipeline_grows (ht : t.Ok) (ht' : t'.Ok) (hgrows : t.Grows t')
    (hnode : m.node = foundNode env t path) : HasPipeline t m ↔ HasPipeline t' m := by
  refine and_congr_left fun _ => forall_congr' fun n => imp_congr_right fun hn => ?_
  obtain ⟨l, hl⟩ := pathTo_foundNode (hnode.symm.trans hn)
  rw [hl.getPipeline ht, (hl.grows hgrows).getPipeline ht']

/-- **Two tries give the same answer** where the one gives an answer: the other one does too, and
what is read off the walks is the same. -/
theorem sameAnswers_iff (ht : t.Ok) (ht' : t'.Ok) (hgrows : t.Grows t')
    (hcalm : Calm env t (slash :: rest)) : SameAnswers env t t' (slash :: rest) ↔
      Calm env t' (slash :: rest) ∧
        foundNode env t' (slash :: rest) = foundNode env t (slash :: rest) ∧
        foundError env t' (slash :: rest) = foundError env t (slash :: rest) ∧
        ∀ name, (recordAll [] (foundEntries env t' (slash :: rest))).lookup name =
          (recordAll [] (foundEntries env t (slash :: rest))).lookup name := by
  constructor
  · intro h
    obtain ⟨m, -, hm⟩ := @matchPath_calm M env t (fun _ _ => none) none rest ht hcalm
    obtain ⟨hnode, herror, hparams, hpipeline⟩ := hm
    have hanswer := (answers_iff ht).mpr ⟨hcalm, hnode, herror, fun _ => by rw [hparams], hpipeline⟩
    obtain ⟨hcalm', hnode', herror', hparams', -⟩ := (answers_iff ht').mp ((h m).mp hanswer)
    refine ⟨hcalm', hnode'.symm.trans hnode, herror'.symm.trans herror, fun name => ?_⟩
    rw [← hparams', hparams]
  · rintro ⟨hcalm', hnode, herror, hparams⟩ m
    rw [answers_iff ht, answers_iff ht', hnode, herror]
    constructor
    · rintro ⟨-, hn, he, hp, hpipeline⟩
      refine ⟨hcalm', hn, he, fun name => ?_, (hasPipeline_grows ht ht' hgrows hn).mp hpipeline⟩
      rw [hparams, hp]
    · rintro ⟨-, hn, he, hp, hpipeline⟩
      refine ⟨hcalm, hn, he, fun name => ?_, (hasPipeline_grows ht ht' hgrows hn).mpr hpipeline⟩
      rw [← hparams, hp]

/-- Two tries that give no answer give the same one. -/
theorem sameAnswers_of_not_calm (ht : t.Ok) (ht' : t'.Ok) (h : ¬ Calm env t (slash :: rest))
    (h' : ¬ Calm env t' (slash :: rest)) : SameAnswers env t t' (slash :: rest) := by
  intro m
  rw [answers_iff ht, answers_iff ht']
  exact iff_of_false (fun hm => h hm.1) fun hm => h' hm.1

/-- A path that does not start with `'/'` is refused without a look at the trie. -/
theorem sameAnswers_no_slash (hhead : path.head? ≠ some slash) : SameAnswers env t t' path := by
  have heq : ∀ garbage indeterminate, t'.matchPath env garbage indeterminate path =
      t.matchPath env garbage indeterminate path := by
    intro garbage indeterminate
    rw [TrieData.matchPath, TrieData.matchPath]
    by_cases hnil : path = []
    · rw [if_pos hnil, if_pos hnil]
    · rw [if_neg hnil, if_neg hnil, if_pos hhead, if_pos hhead]
  intro m
  rw [Answers, Answers]
  exact forall_congr' fun garbage => forall_congr' fun indeterminate => by
    rw [heq garbage indeterminate]

end Path

end ArchNet.Routing

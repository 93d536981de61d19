import ArchNet.Router

/-!
# The Parameters of a Route

The parameters that `Trie::match` of `http/trie.cc` returns with a node, against the nodes on the
path from the root to it.

## Conventions

A parameter node is a node with a name: the code records nothing for a node whose name is empty
(`recordParam`). The node at depth `k + 1` of a path is matched with the segment at index `k`, in
the first attempt and in the one without the last `'/'` alike.

## Main definitions

* `NamedAt`, `Bound`: each name on a path is bound to the segment at the depth of the deepest node
  that has it, and nothing else is bound.
* `way`: the nodes that the loop over the segments goes to.
* `LeftOver`: the first attempt has gone on, behind the last `'/'`, to a parameter node that is not
  on the path to the node found by the second one.

## Main results

* `walk_params`: what the loop over the segments records.
* `matchPath_params_iff`: **the parameters are those of the path, whatever the indeterminate
  pointers hold, exactly if no fallback is attempted and the first attempt leaves nothing over**.
-/

open Bytes

namespace ArchNet.Routing

open Backtrack

variable {M : Type}

/-- The node at this depth of a path has the name. -/
def NamedAt (t : TrieData M) (l : List ℕ) (depth : ℕ) (name : Text) : Prop :=
  name ≠ [] ∧ ∃ p, l[depth]? = some p ∧ (t.deref p).name = name

/-- **The parameters of a path**: a name is bound to the segment at the depth of the deepest node
that has it, and nothing else is bound. -/
def Bound (t : TrieData M) (l : List ℕ) (segments : List Text) (params : Params) : Prop :=
  ∀ name value, params.lookup name = some value ↔
    ∃ k, NamedAt t l (k + 1) name ∧ segments[k]? = some value ∧
      ∀ j, k < j → ¬ NamedAt t l (j + 1) name

/-- **The parameters are right**: those of a node that is returned are those of the path to it.
A path that does not start with `'/'` is refused before a node is looked for. -/
def ParamsRight (t : TrieData M) (path : Text) (result : Option Matched) : Prop :=
  ∃ m, result = some m ∧ (path.head? = some slash → ∀ n, m.node = some n →
    ∃ l, PathTo t n l ∧ Bound t l (segmentsOfPath path) m.params)

/-- The nodes that the loop over the segments goes to. -/
def way (env : Env) (t : TrieData M) : ℕ → List Text → List ℕ
  | _, [] => []
  | parent, s :: segments =>
      match (t.findMatchedChild env parent s).1 with
      | none => []
      | some node => node :: way env t node segments

/-- **The first attempt leaves a name over**: the path is found without its last `'/'`, and from
the node that is found the empty segment leads on to a parameter node, no endpoint, whose name no
node on the path has. -/
def LeftOver (env : Env) (t : TrieData M) (path : Text) : Prop :=
  Retried t path ∧ ∃ n c l, (descent env t (segmentsOfPath path.dropLast)).1 = some n ∧
    (t.findMatchedChild env n []).1 = some c ∧ (t.deref c).endpoint = false ∧
      (t.deref c).name ≠ [] ∧ PathTo t n l ∧ ∀ k, ¬ NamedAt t l (k + 1) (t.deref c).name

/-! ### What is recorded -/

section Recorded

variable {params : Params} {name a value : Text} {entries : List (Text × Text)}

theorem lookup_insert :
    (params.insert a value).lookup name = if name = a then some value else params.lookup name := by
  rw [Params.insert, List.lookup_cons]
  split_ifs with h
  · rw [h, beq_self_eq_true]
  · rw [beq_false_of_ne h]
    exact lookup_filter_ne h

theorem lookup_recordParam : (recordParam params a value).lookup name =
    if name = a ∧ name ≠ [] then some value else params.lookup name := by
  rw [recordParam]
  by_cases ha : a = []
  · rw [if_pos ha, if_neg fun h => h.2 (h.1.trans ha)]
  · rw [if_neg ha, lookup_insert]
    refine if_congr ⟨fun h => ⟨h, h ▸ ha⟩, fun h => h.1⟩ rfl rfl

/-- The entries, recorded one after the other. -/
def recordAll (params : Params) (entries : List (Text × Text)) : Params :=
  entries.foldl (fun params e => recordParam params e.1 e.2) params

/-- What is recorded last stays. -/
theorem lookup_recordAll : (recordAll params entries).lookup name =
    if name = [] then params.lookup name
    else (entries.reverse.lookup name).or (params.lookup name) := by
  induction entries generalizing params with
  | nil => simp [recordAll]
  | cons e entries ih =>
      obtain ⟨a, value⟩ := e
      have hstep : recordAll params ((a, value) :: entries) =
          recordAll (recordParam params a value) entries := rfl
      rw [hstep, ih, lookup_recordParam, List.reverse_cons, List.lookup_append,
        List.lookup_singleton]
      by_cases hname : name = []
      · rw [if_pos hname, if_pos hname, if_neg fun h => h.2 hname]
      · rw [if_neg hname, if_neg hname, Option.or_assoc]
        by_cases ha : name = a
        · rw [if_pos ⟨ha, hname⟩, ha, beq_self_eq_true, if_pos rfl, Option.some_or]
        · rw [if_neg fun h => ha h.1, beq_false_of_ne ha, if_neg Bool.false_ne_true, Option.none_or]

/-- The last entry under a name is the deepest one. -/
theorem lookup_reverse_iff : entries.reverse.lookup name = some value ↔
    ∃ k : ℕ, entries[k]? = some (name, value) ∧
      ∀ j, k < j → ∀ v, entries[j]? ≠ some (name, v) := by
  rw [List.lookup_eq_some_iff]
  constructor
  · rintro ⟨back, front, hsplit, hback⟩
    have hentries : entries = front.reverse ++ (name, value) :: back.reverse := by
      rw [← List.reverse_reverse entries, hsplit, List.reverse_append, List.reverse_cons,
        List.append_assoc, List.singleton_append]
    refine ⟨front.reverse.length, ?_, fun j hj v hv => ?_⟩
    · rw [hentries, List.getElem?_append_right (Nat.le_refl _), Nat.sub_self]
      rfl
    · -- behind the entry there is none under its name
      rw [hentries, List.getElem?_append_right hj.le] at hv
      obtain ⟨i, hi⟩ : ∃ i, j - front.reverse.length = i + 1 :=
        ⟨j - front.reverse.length - 1, by omega⟩
      rw [hi, List.getElem?_cons_succ] at hv
      have hmem := List.mem_reverse.mp (List.mem_of_getElem? hv)
      exact absurd (hback _ hmem) (by simp)
  · rintro ⟨k, hk, hlast⟩
    obtain ⟨hlt, hget⟩ := List.getElem?_eq_some_iff.mp hk
    refine ⟨(entries.drop (k + 1)).reverse, (entries.take k).reverse, ?_, fun e he => ?_⟩
    · rw [← hget, ← List.singleton_append, ← List.append_assoc, ← List.reverse_cons,
        ← List.reverse_append, List.getElem_cons_drop, List.take_append_drop]
    · obtain ⟨i, hi⟩ := List.mem_iff_getElem?.mp (List.mem_reverse.mp he)
      rw [List.getElem?_drop] at hi
      by_contra heq
      have heq' : name = e.1 := by simpa using heq
      exact hlast (k + 1 + i) (by omega) e.2 (by rw [hi, heq'])

end Recorded

/-! ### The way of the loop -/

section Way

variable {env : Env} {t : TrieData M} {p n : ℕ} {s : Text} {w : List Text}

/-- The names of nodes, with the segments that they are matched with. -/
def namesOf (t : TrieData M) (nodes : List ℕ) (segments : List Text) : List (Text × Text) :=
  (nodes.map fun p => (t.deref p).name).zip segments

/-- **What the loop over the segments records**. -/
theorem walk_params {i : ℕ} {stack : FallbackStack} {params : Params} :
    (walk env t recordParam i p w stack params).params =
      recordAll params (namesOf t (way env t p w) w) := by
  induction w generalizing i p stack params with
  | nil => rfl
  | cons s w ih =>
      rw [walk, way]
      obtain ⟨node, colonNode, isSame⟩ := t.findMatchedChild env p s
      cases node with
      | none => rfl
      | some node => exact ih

/-- The loop prefers the literal child. -/
theorem findMatchedChild_eq : (t.findMatchedChild env p s).1 =
    (t.findChild p s).or (t.getColonNode env p s) := by
  rw [TrieData.findMatchedChild]
  cases t.findChild p s with
  | none => cases t.getColonNode env p s <;> rfl
  | some c => cases t.getColonNode env p s <;> rfl

theorem child_of_findMatchedChild {c : ℕ} (h : (t.findMatchedChild env p s).1 = some c) :
    Child t p c := by
  rw [findMatchedChild_eq, Option.or_eq_some_iff] at h
  rcases h with hfirst | ⟨-, hsecond⟩
  · exact @child_of_follow M t p c env .first s hfirst
  · exact @child_of_follow M t p c env .second s hsecond

/-- **A descent that ends at an endpoint** has gone along a path to it. -/
theorem way_of_descend {stack : List (ℕ × List Text)}
    (h : (descend t.findChild (t.getColonNode env) (fun n => (t.deref n).endpoint) p w stack).1 =
      some n) :
    (way env t p w).length = w.length ∧ (p :: way env t p w).IsChain (Child t) ∧
      (p :: way env t p w).getLast? = some n := by
  induction w generalizing p stack with
  | nil =>
      rw [descend] at h
      obtain ⟨-, rfl⟩ : (t.deref p).endpoint = true ∧ p = n := by simpa using h
      exact ⟨rfl, .singleton p, rfl⟩
  | cons s w ih =>
      rw [descend_cons, ← findMatchedChild_eq] at h
      rw [way]
      cases hnode : (t.findMatchedChild env p s).1 with
      | none =>
          rw [hnode] at h
          cases h
      | some c =>
          rw [hnode] at h
          obtain ⟨hlength, hchain, hlast⟩ := ih h
          refine ⟨?_, ?_, ?_⟩
          · rw [List.length_cons, List.length_cons, hlength]
          · exact List.isChain_cons_cons.mpr ⟨child_of_findMatchedChild hnode, hchain⟩
          · rw [List.getLast?_cons_cons]
            exact hlast

/-- **One more segment** leads on from the node that is found. -/
theorem descend_snoc {stack stack' : List (ℕ × List Text)}
    (h : (descend t.findChild (t.getColonNode env) (fun n => (t.deref n).endpoint) p w stack).1 =
      some n) :
    (descend t.findChild (t.getColonNode env) (fun n => (t.deref n).endpoint) p (w ++ [s])
        stack').1 = (t.findMatchedChild env n s).1.filter (fun c => (t.deref c).endpoint) ∧
      way env t p (w ++ [s]) = way env t p w ++ (t.findMatchedChild env n s).1.toList := by
  induction w generalizing p stack stack' with
  | nil =>
      rw [descend] at h
      obtain ⟨-, rfl⟩ : (t.deref p).endpoint = true ∧ p = n := by simpa using h
      rw [List.nil_append, descend_cons, ← findMatchedChild_eq, way, way]
      cases (t.findMatchedChild env p s).1 with
      | none => exact ⟨rfl, rfl⟩
      | some c => exact ⟨rfl, rfl⟩
  | cons a w ih =>
      rw [descend_cons, ← findMatchedChild_eq] at h
      rw [List.cons_append, descend_cons, ← findMatchedChild_eq, way, way]
      cases hnode : (t.findMatchedChild env p a).1 with
      | none =>
          rw [hnode] at h
          cases h
      | some c =>
          rw [hnode] at h
          obtain ⟨hfound, hway⟩ := ih h
          refine ⟨hfound, ?_⟩
          dsimp only
          rw [hway, List.cons_append]

/-- **The entries of the nodes on a path** bind what is bound on it. -/
theorem bound_of_lookup {nodes : List ℕ} {segments : List Text} {params : Params}
    (hlength : nodes.length ≤ segments.length)
    (h : ∀ name, params.lookup name =
      if name = [] then none else (namesOf t nodes segments).reverse.lookup name) :
    Bound t (0 :: nodes) segments params := by
  -- an entry stands where a node of the path has the name
  have hentry : ∀ (name value : Text) (k : ℕ), (namesOf t nodes segments)[k]? = some (name, value) ↔
      (∃ p, nodes[k]? = some p ∧ (t.deref p).name = name) ∧ segments[k]? = some value := by
    intro name value k
    rw [namesOf, List.getElem?_zip_eq_some, List.getElem?_map, Option.map_eq_some_iff]
  intro name value
  rw [h name]
  by_cases hname : name = []
  · rw [if_pos hname]
    refine iff_of_false (by simp) ?_
    rintro ⟨k, hk, -⟩
    exact hk.1 hname
  · rw [if_neg hname, lookup_reverse_iff]
    refine exists_congr fun k => ?_
    rw [hentry, NamedAt, List.getElem?_cons_succ, and_assoc]
    constructor
    · rintro ⟨hnode, hsegment, hlast⟩
      refine ⟨⟨hname, hnode⟩, hsegment, fun j hj hnamed => ?_⟩
      obtain ⟨-, q, hq, hqname⟩ := hnamed
      rw [List.getElem?_cons_succ] at hq
      obtain ⟨hlt, -⟩ := List.getElem?_eq_some_iff.mp hq
      have hsome : segments[j]? = some segments[j] := List.getElem?_eq_getElem (by omega)
      exact hlast j hj _ ((hentry name _ j).mpr ⟨⟨q, hq, hqname⟩, hsome⟩)
    · rintro ⟨⟨-, hnode⟩, hsegment, hlast⟩
      refine ⟨hnode, hsegment, fun j hj v hv => hlast j hj ⟨hname, ?_⟩⟩
      rw [List.getElem?_cons_succ]
      exact ((hentry name v j).mp hv).1

end Way

/-! ### The attempts -/

section Attempts

variable {env : Env} {t : TrieData M} {matched m : Matched} {garbage : ℕ → Option ℕ}
  {path : Text} {n : ℕ}

/-- **What an attempt leaves in the parameters**, where nothing is fallen back to: what they held,
and what its loop over the segments has recorded. -/
theorem matchOnce_params (ht : t.Ok) (hm : matchOnce env t garbage path matched = some m)
    (h : (descent env t (segmentsOfPath path)).1 = none →
      t.maxFallbackDepth.toNat = 0 ∨ fallbacks env t (segmentsOfPath path) = 0) :
    m.node = (descent env t (segmentsOfPath path)).1 ∧
      m.params = recordAll matched.params
        (namesOf t (way env t 0 (segmentsOfPath path)) (segmentsOfPath path)) := by
  have hwalk := @walk_params M env t 0 (segmentsOfPath path) 0 [] matched.params
  cases hd : (descent env t (segmentsOfPath path)).1 with
  | some n =>
      obtain ⟨m', -, hm', hnode, -⟩ := @matchOnce_direct M env t matched n garbage path ht hd
      obtain rfl := Option.some.inj (hm'.symm.trans hm)
      refine ⟨hnode, ?_⟩
      rw [descent_eq matched.params, endOf, firstWalk] at hd
      rw [matchOnce] at hm
      dsimp only at hd hm
      rw [hd, Option.isSome_some, if_pos rfl, finishMatch] at hm
      dsimp only at hm
      obtain ⟨pipeline, -, rfl⟩ := Option.map_eq_some_iff.mp hm
      exact hwalk
  | none =>
      rw [matchOnce_eq hd] at hm
      rcases Nat.eq_zero_or_pos t.maxFallbackDepth.toNat with hlimit | hlimit
      · rw [hlimit, retryLoop] at hm
        obtain rfl := Option.some.inj hm
        exact ⟨rfl, hwalk⟩
      · have hstack := (fallbacks_eq_zero_iff hd).mp ((h hd).resolve_left hlimit.ne')
        rw [descent_eq matched.params] at hstack
        obtain ⟨left, hleft⟩ := Nat.exists_eq_succ_of_ne_zero hlimit.ne'
        rw [List.map_eq_nil_iff.mp hstack, hleft, retryLoop, fallbackLookup] at hm
        obtain rfl := Option.some.inj hm
        exact ⟨rfl, hwalk⟩

/-- Where nothing is fallen back to, an attempt has a result. -/
theorem matchOnce_defined (ht : t.Ok)
    (h : (descent env t (segmentsOfPath path)).1 = none →
      t.maxFallbackDepth.toNat = 0 ∨ fallbacks env t (segmentsOfPath path) = 0) :
    ∃ m, matchOnce env t garbage path matched = some m := by
  cases hd : (descent env t (segmentsOfPath path)).1 with
  | some n =>
      obtain ⟨m, -, hm, -⟩ := @matchOnce_direct M env t matched n garbage path ht hd
      exact ⟨m, hm⟩
  | none =>
      rcases Nat.eq_zero_or_pos t.maxFallbackDepth.toNat with hlimit | hlimit
      · obtain ⟨m, hm, -⟩ := @matchOnce_died M env t matched garbage path hd hlimit
        exact ⟨m, hm⟩
      · obtain ⟨m, hm, -⟩ := @matchOnce_empty M env t matched garbage path hd hlimit.ne'
          ((h hd).resolve_left hlimit.ne')
        exact ⟨m, hm⟩

/-- The nodes that lead to the node that is found. -/
theorem pathTo_way (h : (descent env t (segmentsOfPath path)).1 = some n) :
    PathTo t n (0 :: way env t 0 (segmentsOfPath path)) ∧
      (way env t 0 (segmentsOfPath path)).length = (segmentsOfPath path).length := by
  obtain ⟨hlength, hchain, hlast⟩ := way_of_descend h
  exact ⟨⟨_, rfl, hchain, hlast⟩, hlength⟩

/-- The last `'/'` of a path is an empty segment behind those before it. -/
theorem segmentsOfPath_retried (h : path.getLast? = some slash) :
    segmentsOfPath path = segmentsOfPath path.dropLast ++ [[]] := by
  obtain ⟨front, rfl⟩ := List.getLast?_eq_some_iff.mp h
  rw [List.dropLast_concat, segmentsOfPath, stringSplit_append,
    List.tail_append_of_ne_nil (stringSplit_ne_nil _ _)]
  rfl

end Attempts

section Path

variable {env : Env} {t : TrieData M} {garbage : Bool → ℕ → Option ℕ} {indeterminate : Option ℕ}
  {rest : Text} {n : ℕ}

/-- The first attempt decides. -/
theorem params_of_first (ht : t.Ok)
    (hd : (descent env t (segmentsOfPath (slash :: rest))).1 = some n) :
    ParamsRight t (slash :: rest) (t.matchPath env garbage indeterminate (slash :: rest)) := by
  obtain ⟨m, -, hm, hnode, -⟩ := @matchOnce_direct M env t { node := indeterminate } n
    (garbage false) (slash :: rest) ht hd
  obtain ⟨-, hparams⟩ := matchOnce_params ht hm (by rw [hd]; simp)
  obtain ⟨hpath, hlength⟩ := pathTo_way hd
  refine ⟨m, matchPath_of_some hm (by rw [hnode]; simp), fun _ k hk => ?_⟩
  obtain rfl := Option.some.inj (hnode.symm.trans hk)
  refine ⟨_, hpath, bound_of_lookup hlength.le fun name => ?_⟩
  rw [hparams, lookup_recordAll, List.lookup_nil, Option.or_none]

/-- **Both attempts record**: what a retry returns has been recorded by the first attempt and then
by the second one. -/
theorem params_of_retry (ht : t.Ok) (hretried : Retried t (slash :: rest))
    (hd : (descent env t (segmentsOfPath (slash :: rest))).1 = none)
    (hlimit : t.maxFallbackDepth.toNat = 0 ∨ Quiet env t (slash :: rest)) :
    ∃ m, t.matchPath env garbage indeterminate (slash :: rest) = some m ∧
      m.node = (descent env t (segmentsOfPath (slash :: rest).dropLast)).1 ∧
      m.params = recordAll (recordAll []
          (namesOf t (way env t 0 (segmentsOfPath (slash :: rest)))
            (segmentsOfPath (slash :: rest))))
        (namesOf t (way env t 0 (segmentsOfPath (slash :: rest).dropLast))
          (segmentsOfPath (slash :: rest).dropLast)) := by
  have hfirst := hlimit.imp_right fun h => h.1
  have hsecond : t.maxFallbackDepth.toNat = 0 ∨
      fallbacks env t (segmentsOfPath (slash :: rest).dropLast) = 0 := by
    refine hlimit.imp_right fun h => ?_
    exact (h.2.resolve_left (by rw [hd]; simp)).resolve_left (not_not.mpr hretried)
  obtain ⟨m₁, hm₁⟩ := @matchOnce_defined M env t { node := indeterminate } (garbage false)
    (slash :: rest) ht fun _ => hfirst
  obtain ⟨hnode₁, hparams₁⟩ := matchOnce_params ht hm₁ fun _ => hfirst
  obtain ⟨m₂, hm₂⟩ := @matchOnce_defined M env t m₁ (garbage true) (slash :: rest).dropLast ht
    fun _ => hsecond
  obtain ⟨hnode₂, hparams₂⟩ := matchOnce_params ht hm₂ fun _ => hsecond
  refine ⟨m₂, ?_, hnode₂, ?_⟩
  · rw [matchPath_of_retry hm₁ (hnode₁.trans hd) hretried, hm₂]
  · rw [hparams₂, hparams₁]

theorem namesOf_append {front back : List ℕ} {w w' : List Text} (h : front.length = w.length) :
    namesOf t (front ++ back) (w ++ w') = namesOf t front w ++ namesOf t back w' := by
  rw [namesOf, List.map_append, List.zip_append (by rw [List.length_map, h])]
  rfl

/-- A node with a name has an entry. -/
theorem lookup_of_namedAt {nodes : List ℕ} {segments : List Text} {name : Text} {k : ℕ}
    (hlength : nodes.length ≤ segments.length) (h : NamedAt t (0 :: nodes) (k + 1) name) :
    (namesOf t nodes segments).reverse.lookup name ≠ none := by
  obtain ⟨-, p, hp, hname⟩ := h
  rw [List.getElem?_cons_succ] at hp
  obtain ⟨hlt, -⟩ := List.getElem?_eq_some_iff.mp hp
  have hentry : (namesOf t nodes segments)[k]? = some (name, segments[k]) := by
    rw [namesOf, List.getElem?_zip_eq_some, List.getElem?_map, hp, Option.map_some, hname]
    exact ⟨rfl, List.getElem?_eq_getElem (by omega)⟩
  intro hnone
  have hmem := List.mem_reverse.mpr (List.mem_of_getElem? hentry)
  have hall := List.lookup_eq_none_iff.mp hnone _ hmem
  simp at hall

/-- What a retry returns under a name: the entry of the path, or that of the node behind it to
which the first attempt has gone on. -/
theorem lookup_retry {params : Params} {nodes : List ℕ} {w : List Text} {name : Text} {c : Option ℕ}
    (hlength : nodes.length = w.length)
    (hparams : params = recordAll (recordAll [] (namesOf t (nodes ++ c.toList) (w ++ [[]])))
      (namesOf t nodes w)) (hname : name ≠ []) :
    params.lookup name = ((namesOf t nodes w).reverse.lookup name).or
      ((namesOf t c.toList [[]]).lookup name) := by
  have hsingle : (namesOf t c.toList [[]]).reverse = namesOf t c.toList [[]] := by
    cases c <;> rfl
  rw [hparams, lookup_recordAll, if_neg hname, lookup_recordAll, if_neg hname, List.lookup_nil,
    Option.or_none, namesOf_append hlength, List.reverse_append, List.lookup_append, hsingle]
  cases (namesOf t nodes w).reverse.lookup name with
  | none => rw [Option.none_or, Option.none_or, Option.or_none]
  | some v => rfl

/-- The entry of the node behind the path adds nothing where its name is one of the path. -/
theorem lookup_or_behind {nodes : List ℕ} {w : List Text} {name : Text} {c : Option ℕ}
    (hlength : nodes.length = w.length) (hname : name ≠ [])
    (h : ∀ d, c = some d → (t.deref d).name ≠ [] →
      ∃ k, NamedAt t (0 :: nodes) (k + 1) (t.deref d).name) :
    ((namesOf t nodes w).reverse.lookup name).or ((namesOf t c.toList [[]]).lookup name) =
      (namesOf t nodes w).reverse.lookup name := by
  cases c with
  | none => exact Option.or_none
  | some c =>
      by_cases hsame : name = (t.deref c).name
      · obtain ⟨k, hk⟩ := h c rfl (hsame ▸ hname)
        obtain ⟨v, hv⟩ := Option.ne_none_iff_exists'.mp (lookup_of_namedAt hlength.le hk)
        rw [hsame, hv]
        rfl
      · have hother : (namesOf t (some c).toList [[]]).lookup name = none := by
          simp [namesOf, hsame]
        rw [hother, Option.or_none]

/-- The first attempt misses and leaves nothing over. -/
theorem params_of_miss (ht : t.Ok) (hd : (descent env t (segmentsOfPath (slash :: rest))).1 = none)
    (hlimit : t.maxFallbackDepth.toNat = 0 ∨ Quiet env t (slash :: rest))
    (hover : ¬ LeftOver env t (slash :: rest)) :
    ParamsRight t (slash :: rest) (t.matchPath env garbage indeterminate (slash :: rest)) := by
  by_cases hretried : Retried t (slash :: rest)
  · obtain ⟨m, hm, hnode, hparams⟩ := @params_of_retry M env t garbage indeterminate rest ht
      hretried hd hlimit
    refine ⟨m, hm, fun _ n hn => ?_⟩
    have hsecond := hnode.symm.trans hn
    obtain ⟨hmiss, hway⟩ := @descend_snoc M env t 0 n [] _ [] [] hsecond
    obtain ⟨hpath, hlength⟩ := pathTo_way hsecond
    have hsegments := segmentsOfPath_retried hretried.2
    refine ⟨_, hpath, ?_⟩
    rw [hsegments] at hparams hd ⊢
    rw [hway] at hparams
    refine bound_of_lookup (by rw [List.length_append]; omega) fun name => ?_
    -- the empty segment behind those of the path adds no entry
    have hcut := @namesOf_append M t (way env t 0 (segmentsOfPath (slash :: rest).dropLast)) []
      _ [[]] hlength
    rw [List.append_nil] at hcut
    rw [hcut, List.reverse_append, List.lookup_append]
    by_cases hname : name = []
    · rw [if_pos hname, hparams, lookup_recordAll, if_pos hname, lookup_recordAll, if_pos hname,
        List.lookup_nil]
    · rw [if_neg hname, lookup_retry hlength hparams hname]
      refine lookup_or_behind hlength hname fun c hc hnamed => ?_
      have hend : (t.deref c).endpoint = false := by
        rw [descent, hmiss, hc, Option.filter_some] at hd
        by_contra hend
        rw [Bool.not_eq_false] at hend
        rw [hend, if_pos rfl] at hd
        cases hd
      by_contra hnone
      exact hover ⟨hretried, n, c, _, hsecond, hc, hend, hnamed, hpath, not_exists.mp hnone⟩
  · have hfirst := hlimit.imp_right fun h => h.1
    obtain ⟨m, hm⟩ := @matchOnce_defined M env t { node := indeterminate } (garbage false)
      (slash :: rest) ht fun _ => hfirst
    obtain ⟨hnode, -⟩ := matchOnce_params ht hm fun _ => hfirst
    refine ⟨m, matchPath_of_some hm fun _ => hretried, fun _ n hn => ?_⟩
    rw [hnode.trans hd] at hn
    cases hn

/-- Where the parameters are right nothing has been left over. -/
theorem not_leftOver (ht : t.Ok)
    (hlimit : t.maxFallbackDepth.toNat = 0 ∨ Quiet env t (slash :: rest))
    (h : ∀ garbage indeterminate, ParamsRight t (slash :: rest)
      (t.matchPath env garbage indeterminate (slash :: rest))) :
    ¬ LeftOver env t (slash :: rest) := by
  rintro ⟨hretried, n, c, l, hd, hc, hend, hname, hl, hnone⟩
  obtain ⟨hmiss, hway⟩ := @descend_snoc M env t 0 n [] _ [] [] hd
  obtain ⟨hpath, hlength⟩ := pathTo_way hd
  have hsegments := segmentsOfPath_retried hretried.2
  have hfirst : (descent env t (segmentsOfPath (slash :: rest))).1 = none := by
    rw [hsegments, descent, hmiss, hc, Option.filter_some, hend, if_neg Bool.false_ne_true]
  obtain ⟨m, hm, hnode, hparams⟩ := @params_of_retry M env t (fun _ _ => none) none rest ht
    hretried hfirst hlimit
  obtain ⟨m', hm', hright⟩ := h (fun _ _ => none) none
  obtain rfl := Option.some.inj (hm.symm.trans hm')
  obtain ⟨l', hl', hbound⟩ := hright rfl n (hnode.trans hd)
  obtain rfl := hl.eq ht hl'
  -- the name is bound, and no node on the path has it
  rw [hsegments, hway, hc] at hparams
  have hlookup := lookup_retry hlength hparams hname
  have hself : (namesOf t (some c).toList [[]]).lookup (t.deref c).name = some [] := by
    simp [namesOf]
  rw [hself] at hlookup
  obtain ⟨v, hv⟩ : ∃ v, m.params.lookup (t.deref c).name = some v := by
    rw [hlookup]
    exact Option.isSome_iff_exists.mp (by simp)
  obtain ⟨k, hk, -⟩ := (hbound _ v).mp hv
  exact hnone k hk

end Path

/-- **The parameters of a returned node are those of the path to it**, whatever the indeterminate
pointers hold, exactly if no fallback is attempted and the first attempt leaves nothing over. -/
theorem matchPath_params_iff (env : Env) (t : Trie M) (path : Text) :
    (∀ garbage indeterminate, ParamsRight t.toTrieData path
      (t.toTrieData.matchPath env garbage indeterminate path)) ↔
        path.head? ≠ some slash ∨
          (t.maxFallbackDepth.toNat = 0 ∨ Quiet env t.toTrieData path) ∧
            ¬ LeftOver env t.toTrieData path := by
  set d := t.toTrieData with hdata
  have ht : d.Ok := t.ok
  by_cases hhead : path.head? = some slash
  · obtain ⟨rest, rfl⟩ : ∃ rest, path = slash :: rest := List.head?_eq_some_iff.mp hhead
    rw [or_iff_right (not_not.mpr hhead)]
    constructor
    · intro h
      have hlimit : d.maxFallbackDepth.toNat = 0 ∨ Quiet env d (slash :: rest) := by
        by_contra hnot
        rw [not_or] at hnot
        obtain ⟨m, hm, -⟩ := h (fun _ _ => some d.nodes.length) none
        rw [matchPath_dangling hnot.1 hnot.2] at hm
        cases hm
      exact ⟨hlimit, not_leftOver ht hlimit h⟩
    · rintro ⟨hlimit, hover⟩ garbage indeterminate
      cases hfirst : (descent env d (segmentsOfPath (slash :: rest))).1 with
      | some n => exact params_of_first ht hfirst
      | none => exact params_of_miss ht hfirst hlimit hover
  · refine iff_of_true (fun garbage indeterminate => ?_) (.inl hhead)
    obtain ⟨m, hm, -⟩ := @matchPath_no_slash env garbage indeterminate M d path hhead
    exact ⟨m, hm, fun h => absurd h hhead⟩

/-- The trie of the routes `/a` and `/a/:id/b`. -/
def nestedRoutes : Trie Unit :=
  (((Trie.new anyName).addNode anyName (ascii "/a")).1.addNode anyName (ascii "/a/:id/b")).1

/-- `/a/` is found as `/a` by the second attempt. The first one has gone on to `:id` with the
empty segment, and what it has recorded is returned with `/a`. -/
theorem params_left_over :
    ((Trie.new (M := Unit) anyName).addNode anyName (ascii "/a")).2.isOk = true ∧
      (((Trie.new (M := Unit) anyName).addNode anyName (ascii "/a")).1.addNode anyName
        (ascii "/a/:id/b")).2.isOk = true ∧
      ¬ ParamsRight nestedRoutes.toTrieData (ascii "/a/")
        (nestedRoutes.toTrieData.matchPath anyName (fun _ _ => none) none (ascii "/a/")) := by
  refine ⟨by decide, by decide, ?_⟩
  rintro ⟨m, hm, hright⟩
  have hresult : nestedRoutes.toTrieData.matchPath anyName (fun _ _ => none) none (ascii "/a/") =
      some { node := some 1, params := [(ascii "id", [])], pipeline := [0, 1] } := by decide
  obtain rfl := Option.some.inj (hm.symm.trans hresult)
  obtain ⟨l, hl, hbound⟩ := hright (by decide) 1 rfl
  have hpipeline : getPipeline nestedRoutes.toTrieData 1 = some [0, 1] := by decide
  obtain rfl := getPipeline_of_path nestedRoutes.ok hl hpipeline
  have hlookup : List.lookup (ascii "id") [(ascii "id", ([] : Text))] = some [] := by decide
  obtain ⟨k, ⟨-, p, hp, hname⟩, -⟩ := (hbound (ascii "id") []).mp hlookup
  cases k with
  | zero =>
      obtain rfl : 1 = p := Option.some.inj hp
      revert hname
      decide
  | succ k => cases hp

end ArchNet.Routing

import ArchNet.TreeSearch

/-!
# Dispatch by the Tree Router

Which handler `ServeHttp` runs: that of the literal route equal to the path, or of a parameter
route that `match_and_parse` accepts it for.

## Conventions

`Add` drops the slashes before a pattern, so that a route's path is its pattern with one slash
before it (`rooted`). A parameter route is one for which `match_and_parse` has names.

## Main definitions

* `Dispatched`: how a request should end, and `Fits`: when it does.

## Main results

* `serveHttp_iff`: **a request is dispatched right, in whatever order the tables of children are
  iterated, exactly if the routes fit its path.**
-/

open Bytes EcmaScript

namespace ArchNet.TreeRouter

variable {H : Type} {beyond : Text → Text → Option (Option (List Text))}
  {order : Node H → List (Text × Node H)} {routes : List (Text × H)} {r : Text × H}
  {ks : List Text} {s u p q url : Text} {n : Node H}

/-! ### How a request should end -/

/-- A route with parameters. -/
def IsParam (path : Text) : Prop := (compile path).matchName ≠ []

/-- `match_and_parse` succeeds. -/
def Succeeds (beyond : Text → Text → Option (Option (List Text))) (url path : Text) : Prop :=
  ∃ params, matchAndParse beyond url path (fun _ => none) = some (true, params)

/-- `match_and_parse` throws. -/
def Throws (beyond : Text → Text → Option (Option (List Text))) (url path : Text) : Prop :=
  matchAndParse beyond url path (fun _ => none) = none

/-- A parameter route for which `match_and_parse` succeeds. -/
def Accepted (beyond : Text → Text → Option (Option (List Text))) (url path : Text) : Prop :=
  IsParam path ∧ Succeeds beyond url path

/-- The literal route equal to the path. -/
def HasLiteral (routes : List (Text × H)) (url : Text) : Prop :=
  ∃ r ∈ routes, rooted r.1 = url ∧ ¬ IsParam r.1

/-- The handler added last for the route with a path. -/
def latest (routes : List (Text × H)) (path : Text) : Option H :=
  (routes.reverse.find? fun r => rooted r.1 = path).map Prod.snd

/-- **How a request should end.** -/
structure Dispatched (beyond : Text → Text → Option (Option (List Text)))
    (routes : List (Text × H)) (url : Text) (o : Outcome H) : Prop where
  literal : HasLiteral routes url →
    ∃ p h params, o = .ran p h params ∧ rooted p = url ∧ latest routes url = some h
  param : ¬ HasLiteral routes url → (∃ r ∈ routes, Accepted beyond url r.1) →
    ∃ p h params, o = .ran p h params ∧ Accepted beyond url p ∧ latest routes (rooted p) = some h
  none : ¬ HasLiteral routes url → (¬ ∃ r ∈ routes, Accepted beyond url r.1) → o = .notFound

/-! ### When it does -/

/-- A route that the regex pass should not stop at. -/
def IsTrap (beyond : Text → Text → Option (Option (List Text))) (url path : Text) : Prop :=
  Throws beyond url path ∨ (¬ IsParam path ∧ Succeeds beyond url path)

/-- **When a request ends as it should.** -/
structure Fits (beyond : Text → Text → Option (Option (List Text))) (routes : List (Text × H))
    (url : Text) : Prop where
  exact : ∀ r, holder routes (keys url) = some r → rooted r.1 = url → IsParam r.1 →
    Succeeds beyond url r.1
  inner : ¬ IsExact routes url → IsInner routes url → ¬ HasLiteral routes url ∧
    (¬ ∃ r ∈ routes, Accepted beyond url r.1) ∧ ¬ (url = [slash, slash] ∧ HasRoot routes)
  searched : ¬ IsInner routes url → (∃ r ∈ routes, Accepted beyond url r.1) →
    ∃ r ∈ routes, IsTried routes url r.1 ∧ Accepted beyond url r.1
  nearest : ¬ IsInner routes url → ∀ c ∈ routes, IsTried routes url c.1 → IsTrap beyond url c.1 →
    ∃ r ∈ routes, IsTried routes url r.1 ∧ Accepted beyond url r.1 ∧
      (keys r.1).length < (keys c.1).length

/-! ### Routes with the same keys -/

theorem IsParam.congr (h : keys p = keys q) (hp : IsParam p) : IsParam q := by
  rw [IsParam, ← compile_congr h]
  exact hp

theorem Accepted.congr (h : keys p = keys q) (hp : Accepted beyond url p) :
    Accepted beyond url q :=
  ⟨hp.1.congr h, hp.2.imp fun _ hparams => (matchAndParse_congr h).symm.trans hparams⟩

/-! ### The regex pass -/

/-- The loop over the nodes that may match stops at a node. -/
def stops (beyond : Text → Text → Option (Option (List Text))) (url : Text) (n : Node H) : Bool :=
  n.value.handle.isSome && n.value.path != url &&
    (matchAndParse beyond url n.value.path fun _ => none).all Prod.fst

theorem firstMatch_skip {nodes : List (Node H)} (h : stops beyond url n = false) :
    firstMatch beyond url (n :: nodes) = firstMatch beyond url nodes := by
  rw [firstMatch]
  cases hhandle : n.value.handle with
  | none => rfl
  | some handle =>
      by_cases hpath : n.value.path = url
      · exact if_neg (not_not_intro hpath)
      · rw [stops, hhandle, bne_iff_ne.mpr hpath] at h
        refine (if_pos hpath).trans ?_
        cases hmatch : matchAndParse beyond url n.value.path fun _ => none with
        | none => rw [hmatch] at h; cases h
        | some result =>
            obtain ⟨b, params⟩ := result
            cases b with
            | false => rfl
            | true => rw [hmatch] at h; cases h

/-- The loop ends where it stops: with the exception, or with the handler of the node. -/
theorem firstMatch_stop {nodes : List (Node H)} (h : stops beyond url n = true) :
    (Throws beyond url n.value.path ∧ firstMatch beyond url (n :: nodes) = .regexError) ∨
      ∃ handle params, n.value.handle = some handle ∧ Succeeds beyond url n.value.path ∧
        firstMatch beyond url (n :: nodes) = .ran n.value.path handle params := by
  rw [firstMatch]
  cases hhandle : n.value.handle with
  | none => rw [stops, hhandle] at h; cases h
  | some handle =>
      by_cases hpath : n.value.path = url
      · rw [stops, hhandle, hpath, bne_self_eq_false] at h
        cases h
      · rw [stops, hhandle, bne_iff_ne.mpr hpath] at h
        simp only [if_pos (show n.value.path ≠ url from hpath)]
        cases hmatch : matchAndParse beyond url n.value.path fun _ => none with
        | none => exact .inl ⟨hmatch, rfl⟩
        | some result =>
            obtain ⟨b, params⟩ := result
            cases b with
            | false => rw [hmatch] at h; cases h
            | true => exact .inr ⟨handle, params, rfl, ⟨params, hmatch⟩, rfl⟩

theorem firstMatch_none {nodes : List (Node H)} (h : nodes.find? (stops beyond url) = none) :
    firstMatch beyond url nodes = .notFound := by
  induction nodes with
  | nil => rfl
  | cons n nodes ih =>
      have hall := List.find?_eq_none.mp h
      have hn := Bool.eq_false_iff.mpr (hall n (List.mem_cons_self ..))
      rw [firstMatch_skip hn]
      exact ih (List.find?_eq_none.mpr fun m hm => hall m (List.mem_cons_of_mem _ hm))

theorem firstMatch_some {nodes : List (Node H)} (h : nodes.find? (stops beyond url) = some n) :
    (Throws beyond url n.value.path ∧ firstMatch beyond url nodes = .regexError) ∨
      ∃ handle params, n.value.handle = some handle ∧ Succeeds beyond url n.value.path ∧
        firstMatch beyond url nodes = .ran n.value.path handle params := by
  induction nodes with
  | nil => cases h
  | cons m nodes ih =>
      rw [List.find?_cons] at h
      cases hstops : stops beyond url m with
      | true =>
          rw [hstops] at h
          obtain rfl := Option.some.inj h
          exact firstMatch_stop hstops
      | false =>
          rw [hstops] at h
          rw [firstMatch_skip hstops]
          exact ih h

/-- The loop stops at the pattern nodes whose route throws or succeeds. -/
theorem stops_iff (hu : u ≠ []) (hn : (tree routes).descend ks = some n) :
    (n.value.isPattern && stops beyond (slash :: u) n) = true ↔
      ∃ r, holder routes ks = some r ∧
        (Throws beyond (slash :: u) r.1 ∨ Succeeds beyond (slash :: u) r.1) := by
  have hall : ∀ p, (matchAndParse beyond (slash :: u) p fun _ => none).all Prod.fst = true ↔
      Throws beyond (slash :: u) p ∨ Succeeds beyond (slash :: u) p := by
    intro p
    rw [Throws, Succeeds]
    cases matchAndParse beyond (slash :: u) p fun _ => none with
    | none => exact iff_of_true rfl (.inl rfl)
    | some result =>
        obtain ⟨b, params⟩ := result
        cases b <;> simp
  constructor
  · intro h
    obtain ⟨hpattern, hstops⟩ := Bool.and_eq_true_iff.mp h
    obtain ⟨r, hr, hpath, -⟩ := holder_of_isPattern hn hpattern
    have hmatch := (hall _).mp (Bool.and_eq_true_iff.mp hstops).2
    rw [Throws, Succeeds, hpath, matchAndParse_congr keys_nodePath] at hmatch
    exact ⟨r, hr, hmatch⟩
  · rintro ⟨r, hr, hmatch⟩
    obtain ⟨hpath, hhandle, hpattern⟩ := entry_of_holder hr
    rw [← (value_of_descend hn).2] at hpath hhandle hpattern
    have hne : n.value.path ≠ slash :: u := by
      rw [hpath, nodePath]
      split
      · next hslash =>
          rw [hslash]
          exact fun h => hu (List.cons.inj h).2.symm
      · exact fun h => head?_trimPathPrefix (s := r.1) (by rw [h]; rfl)
    rw [Throws, Succeeds, ← matchAndParse_congr keys_nodePath, ← hpath] at hmatch
    rw [hpattern, stops, hhandle, bne_iff_ne.mpr hne, (hall _).mpr hmatch]
    rfl

/-! ### Where the regex pass stops -/

/-- The handler of a node is the one added last for its route. -/
theorem latest_of_holder (hr : holder routes ks = some r) :
    latest routes (rooted r.1) = some r.2 := by
  have hlast : ∀ l : List (Text × H), l.find? (fun r => keys r.1 = ks) = some r →
      l.find? (fun r' => rooted r'.1 = rooted r.1) = some r := by
    intro l hl
    induction l with
    | nil => cases hl
    | cons r' l ih =>
        rw [List.find?_cons] at hl ⊢
        by_cases hkeys : keys r'.1 = ks
        · rw [decide_eq_true hkeys] at hl
          obtain rfl := Option.some.inj hl
          rw [decide_eq_true rfl]
        · rw [decide_eq_false hkeys] at hl
          have hne : rooted r'.1 ≠ rooted r.1 := by
            intro heq
            refine hkeys ?_
            rw [keys_of_rooted heq, keys_rooted]
            exact (mem_of_holder hr).2
          rw [decide_eq_false hne]
          exact ih hl
  rw [latest, hlast _ hr]
  rfl

theorem not_hasLiteral (h : ¬ IsInner routes url) : ¬ HasLiteral routes url := by
  rintro ⟨r, hr, hrooted, -⟩
  exact h ⟨r, hr, by rw [keys_of_rooted hrooted]⟩

/-- The pass meets every route below its node, as deep as the route has keys. -/
theorem exists_stop (hu : u ≠ []) (hn : (tree routes).descend ks = some n) (hr : r ∈ routes)
    (hks : ks <+: keys r.1)
    (hmatch : Throws beyond (slash :: u) r.1 ∨ Succeeds beyond (slash :: u) r.1) :
    ∃ rest m, keys r.1 = ks ++ rest ∧ n.descend rest = some m ∧
      (m.value.isPattern && stops beyond (slash :: u) m) = true := by
  obtain ⟨rest, hrest⟩ := hks
  obtain ⟨m, hm, -⟩ := exists_node (show IsNode routes _ from .inr ⟨r, hr, List.prefix_rfl⟩)
  obtain ⟨r', hr'⟩ := exists_holder hr
  have hkeys := (mem_of_holder hr').2
  refine ⟨rest, m, hrest.symm, ?_, (stops_iff hu hm).mpr ⟨r', hr', ?_⟩⟩
  · rw [← hrest, KeyTree.descend_append, hn, Option.bind_some] at hm
    exact hm
  · rw [Throws, Succeeds, matchAndParse_congr hkeys]
    exact hmatch

/-- Where the pass stops, at the least depth where it can. -/
theorem find?_patternsBelow {p : Node H → Bool} {m : Node H}
    (ho : KeyTree.IsOrder order) (hn : (tree routes).descend ks = some n)
    (h : (patternsBelow order n).find? p = some m) :
    ∃ rest, (tree routes).descend (ks ++ rest) = some m ∧
      (m.value.isPattern && p m) = true ∧
      ∀ rest' m', rest'.length < rest.length → n.descend rest' = some m' →
        (m'.value.isPattern && p m') = false := by
  rw [patternsBelow, List.find?_filter] at h
  simp only [Bool.decide_and, Bool.decide_eq_true] at h
  obtain ⟨d, -, hm, hbefore⟩ := KeyTree.find?_breadthFirst.mp h
  have hdistinct := distinct_tree.descend hn
  obtain ⟨rest, rfl, hrest⟩ :=
    (KeyTree.mem_level hdistinct ho).mp (List.mem_of_find?_eq_some hm)
  refine ⟨rest, ?_, List.find?_some (p := fun m : Node H => m.value.isPattern && p m) hm, ?_⟩
  · rw [KeyTree.descend_append, hn]
    exact hrest
  · intro rest' m' hlt hm'
    exact hbefore rest'.length hlt m' ((KeyTree.mem_level hdistinct ho).mpr ⟨rest', rfl, hm'⟩)

/-- **The pass ends as it should** if it comes to an accepted route before any trap. -/
theorem dispatched_pass (hu : u ≠ []) (ho : KeyTree.IsOrder order)
    (hn : (tree routes).descend ks = some n)
    (htried : ∀ p, IsTried routes (slash :: u) p ↔ ks <+: keys p)
    (hinner : ¬ IsInner routes (slash :: u)) (h : Fits beyond routes (slash :: u)) :
    Dispatched beyond routes (slash :: u)
      (firstMatch beyond (slash :: u) (patternsBelow order n)) := by
  have hliteral := not_hasLiteral hinner
  cases hfind : (patternsBelow order n).find? (stops beyond (slash :: u)) with
  | none =>
      have hnone : ¬ ∃ r ∈ routes, Accepted beyond (slash :: u) r.1 := by
        intro haccepted
        obtain ⟨r, hr, hrtried, hraccepted⟩ := h.searched hinner haccepted
        obtain ⟨rest, m, -, hm, hstops⟩ :=
          exists_stop hu hn hr ((htried _).mp hrtried) (.inr hraccepted.2)
        obtain ⟨hpattern, hstops⟩ := Bool.and_eq_true_iff.mp hstops
        have hbelow : (tree routes).descend (ks ++ rest) = some m := by
          rw [KeyTree.descend_append, hn]
          exact hm
        exact List.find?_eq_none.mp hfind m
          ((mem_patternsBelow ho hn).mpr ⟨rest, hbelow, hpattern⟩) hstops
      exact ⟨fun hl => absurd hl hliteral, fun _ hex => absurd hex hnone,
        fun _ _ => firstMatch_none hfind⟩
  | some m =>
      obtain ⟨rest, hm, hstops, hfirst⟩ := find?_patternsBelow ho hn hfind
      obtain ⟨r, hr, hmatch⟩ := (stops_iff hu hm).mp hstops
      obtain ⟨hmem, hkeys⟩ := mem_of_holder hr
      have haccepted : Accepted beyond (slash :: u) r.1 := by
        by_contra hnot
        have htrap : IsTrap beyond (slash :: u) r.1 :=
          hmatch.imp_right fun hs => ⟨fun hp => hnot ⟨hp, hs⟩, hs⟩
        obtain ⟨g, hg, hgtried, hgaccepted, hlt⟩ := h.nearest hinner r hmem
          ((htried _).mpr ⟨rest, hkeys.symm⟩) htrap
        obtain ⟨rest', m', hrest', hm', hstops'⟩ :=
          exists_stop hu hn hg ((htried _).mp hgtried) (.inr hgaccepted.2)
        rw [hkeys, hrest', List.length_append, List.length_append] at hlt
        rw [hfirst rest' m' (by omega) hm'] at hstops'
        cases hstops'
      obtain ⟨r', hr', hpath, hhandle⟩ :=
        holder_of_isPattern hm (Bool.and_eq_true_iff.mp hstops).1
      obtain rfl := Option.some.inj (hr.symm.trans hr')
      have hnode : Accepted beyond (slash :: u) m.value.path :=
        haccepted.congr (by rw [hpath, keys_nodePath])
      refine ⟨fun hl => absurd hl hliteral, fun _ _ => ?_,
        fun _ hnone => absurd ⟨r, hmem, haccepted⟩ hnone⟩
      obtain ⟨hthrows, -⟩ | ⟨handle, params, hhandle', -, hran⟩ := firstMatch_some hfind
      · obtain ⟨params, hparams⟩ := hnode.2
        rw [Throws, hparams] at hthrows
        cases hthrows
      · refine ⟨_, handle, params, hran, hnode, ?_⟩
        rw [hpath, rooted_nodePath, latest_of_holder hr, ← hhandle, hhandle']

/-- Where a pass that ends as it should stops, there is an accepted route. -/
theorem accepted_of_dispatched {nodes : List (Node H)} {m : Node H}
    (hinner : ¬ IsInner routes url) (hfind : nodes.find? (stops beyond url) = some m)
    (h : Dispatched beyond routes url (firstMatch beyond url nodes)) :
    Accepted beyond url m.value.path := by
  have hliteral := not_hasLiteral hinner
  obtain ⟨-, herror⟩ | ⟨handle, params, -, -, hran⟩ := firstMatch_some hfind
  · rw [herror] at h
    by_cases hex : ∃ r ∈ routes, Accepted beyond url r.1
    · obtain ⟨_, _, _, heq, -⟩ := h.param hliteral hex
      cases heq
    · cases h.none hliteral hex
  · rw [hran] at h
    by_cases hex : ∃ r ∈ routes, Accepted beyond url r.1
    · obtain ⟨p, _, _, heq, hp, -⟩ := h.param hliteral hex
      rw [(Outcome.ran.inj heq).1]
      exact hp
    · cases h.none hliteral hex

/-- In some order the pass stops at a given place, if it can stop there and nowhere above. -/
theorem exists_order_find? {p : Node H → Bool} {rest : List Text} {m : Node H}
    (hn : (tree routes).descend ks = some n) (hm : n.descend rest = some m)
    (hp : (m.value.isPattern && p m) = true)
    (habove : ∀ rest' m', rest'.length < rest.length → n.descend rest' = some m' →
      (m'.value.isPattern && p m') = false) :
    ∃ order, KeyTree.IsOrder order ∧ (patternsBelow order n).find? p = some m := by
  obtain ⟨order, ho, hhead⟩ := KeyTree.exists_order hm
  refine ⟨order, ho, ?_⟩
  rw [patternsBelow, List.find?_filter]
  simp only [Bool.decide_and, Bool.decide_eq_true]
  refine KeyTree.find?_breadthFirst.mpr ⟨rest.length, ?_, ?_, ?_⟩
  · have hpos : 0 < m.height := by cases m; exact Nat.succ_pos _
    have hle := KeyTree.length_lt_height hm
    omega
  · cases hlevel : KeyTree.level order rest.length n with
    | nil => rw [hlevel] at hhead; cases hhead
    | cons v vs =>
        rw [hlevel] at hhead
        obtain rfl := Option.some.inj hhead
        exact List.find?_cons_of_pos hp
  · intro d hd v hv
    obtain ⟨rest', rfl, hrest'⟩ := (KeyTree.mem_level (distinct_tree.descend hn) ho).mp hv
    exact habove rest' v hd hrest'

/-- **A route that could be met first is no trap**, if the pass ends as it should in every order. -/
theorem nearest_of_dispatched (hu : u ≠ []) (hn : (tree routes).descend ks = some n)
    (htried : ∀ p, IsTried routes (slash :: u) p ↔ ks <+: keys p)
    (hinner : ¬ IsInner routes (slash :: u))
    (h : ∀ order, KeyTree.IsOrder order → Dispatched beyond routes (slash :: u)
      (firstMatch beyond (slash :: u) (patternsBelow order n)))
    {c : Text × H} (hc : c ∈ routes) (hctried : IsTried routes (slash :: u) c.1)
    (htrap : IsTrap beyond (slash :: u) c.1) :
    ∃ r ∈ routes, IsTried routes (slash :: u) r.1 ∧ Accepted beyond (slash :: u) r.1 ∧
      (keys r.1).length < (keys c.1).length := by
  by_contra hnone
  -- Of the traps without an accepted route above them take one of the least depth.
  induction hd : (keys c.1).length using Nat.strong_induction_on generalizing c with
  | h d ih =>
      obtain ⟨rest, m, hrest, hm, hstops⟩ := exists_stop hu hn hc ((htried _).mp hctried)
        (htrap.imp_right And.right)
      have hdescend : ∀ rest, (tree routes).descend (ks ++ rest) = n.descend rest := by
        intro rest
        rw [KeyTree.descend_append, hn, Option.bind_some]
      have habove : ∀ rest' m', rest'.length < rest.length → n.descend rest' = some m' →
          (m'.value.isPattern && stops beyond (slash :: u) m') = false := by
        intro rest' m' hlength hm'
        refine Bool.eq_false_iff.mpr fun hstops' => ?_
        obtain ⟨r, hr, hmatch⟩ := (stops_iff hu ((hdescend rest').trans hm')).mp hstops'
        obtain ⟨hmem, hkeys⟩ := mem_of_holder hr
        have hrtried := (htried r.1).mpr ⟨rest', hkeys.symm⟩
        have hlt : (keys r.1).length < (keys c.1).length := by
          rw [hkeys, hrest, List.length_append, List.length_append]
          omega
        by_cases haccepted : Accepted beyond (slash :: u) r.1
        · exact hnone ⟨r, hmem, hrtried, haccepted, hlt⟩
        · refine ih (keys r.1).length (hd ▸ hlt) hmem hrtried
            (hmatch.imp_right fun hs => ⟨fun hp => haccepted ⟨hp, hs⟩, hs⟩) ?_ rfl
          rintro ⟨g, hg, hgtried, hgaccepted, hglt⟩
          exact hnone ⟨g, hg, hgtried, hgaccepted, Nat.lt_trans hglt hlt⟩
      obtain ⟨order, ho, hfind⟩ := exists_order_find? hn hm hstops habove
      have hpath : keys m.value.path = keys c.1 := by
        obtain ⟨r, hr, hpath, -⟩ := holder_of_isPattern ((hdescend rest).trans hm)
          (Bool.and_eq_true_iff.mp hstops).1
        rw [hpath, keys_nodePath, (mem_of_holder hr).2, hrest]
      obtain ⟨hparam, params, hparams⟩ := accepted_of_dispatched hinner hfind (h order ho)
      rw [matchAndParse_congr hpath] at hparams
      obtain hthrows | ⟨hliteral, -⟩ := htrap
      · rw [Throws, hparams] at hthrows
        cases hthrows
      · exact hliteral (hparam.congr hpath)

/-- **A route is accepted where the pass looks**, if some is and the pass ends as it should. -/
theorem searched_of_dispatched (hn : (tree routes).descend ks = some n)
    (htried : ∀ p, IsTried routes (slash :: u) p ↔ ks <+: keys p)
    (hinner : ¬ IsInner routes (slash :: u))
    (h : ∀ order, KeyTree.IsOrder order → Dispatched beyond routes (slash :: u)
      (firstMatch beyond (slash :: u) (patternsBelow order n)))
    (hex : ∃ r ∈ routes, Accepted beyond (slash :: u) r.1) :
    ∃ r ∈ routes, IsTried routes (slash :: u) r.1 ∧ Accepted beyond (slash :: u) r.1 := by
  have ho : KeyTree.IsOrder (KeyTree.children : Node H → List (Text × Node H)) :=
    fun _ => List.Perm.refl _
  have hgood := h _ ho
  cases hfind : (patternsBelow KeyTree.children n).find? (stops beyond (slash :: u)) with
  | none =>
      obtain ⟨_, _, _, heq, -⟩ := hgood.param (not_hasLiteral hinner) hex
      rw [firstMatch_none hfind] at heq
      cases heq
  | some m =>
      have haccepted := accepted_of_dispatched hinner hfind hgood
      obtain ⟨rest, hm, hstops, -⟩ := find?_patternsBelow ho hn hfind
      obtain ⟨r, hr, hpath, -⟩ := holder_of_isPattern hm (Bool.and_eq_true_iff.mp hstops).1
      obtain ⟨hmem, hkeys⟩ := mem_of_holder hr
      exact ⟨r, hmem, (htried _).mpr ⟨rest, hkeys.symm⟩,
        haccepted.congr (by rw [hpath, keys_nodePath])⟩

/-! ### The dispatch -/

/-- No path but the empty one matches the expression of the root. -/
theorem matchAndParse_of_keys_nil (h : keys p = []) {params : Params} :
    matchAndParse beyond (slash :: u) p params = some (false, params) := by
  rw [matchAndParse, compile_eq, h]
  rfl

/-- With two slashes before the path and no route `/` the pass runs no handler. -/
theorem firstMatch_root (hu : u ≠ []) :
    firstMatch beyond (slash :: u) [tree routes] = .notFound := by
  refine firstMatch_none (List.find?_eq_none.mpr fun n hn hstops => ?_)
  obtain rfl := List.mem_singleton.mp hn
  cases hr : holder routes [] with
  | none =>
      rw [stops, value_tree, (entry_of_none hr).2.1] at hstops
      cases hstops
  | some r =>
      have hpattern : (tree routes).value.isPattern = true := by
        rw [value_tree, (entry_of_holder hr).2.2]
      have hdescend : (tree routes).descend [] = some (tree routes) := rfl
      obtain ⟨r', hr', hmatch⟩ :=
        (stops_iff hu hdescend).mp (Bool.and_eq_true_iff.mpr ⟨hpattern, hstops⟩)
      rw [Throws, Succeeds, matchAndParse_of_keys_nil (mem_of_holder hr').2] at hmatch
      obtain hthrows | ⟨params, hparams⟩ := hmatch
      · cases hthrows
      · cases hparams

theorem not_isParam_root : ¬ IsParam [slash] := fun h => h rfl

/-- Where the route with the path is run, that is right if it is literal or accepted. -/
theorem dispatched_exact (hr : holder routes (keys url) = some r) (hrooted : rooted r.1 = url) :
    Dispatched beyond routes url (.ran (nodePath r.1) r.2 fun _ => none) ↔
      (IsParam r.1 → Succeeds beyond url r.1) := by
  have hnode : ∀ p, Accepted beyond url (nodePath p) ↔ Accepted beyond url p :=
    fun p => ⟨.congr keys_nodePath, .congr keys_nodePath.symm⟩
  have hlatest : latest routes (rooted (nodePath r.1)) = some r.2 := by
    rw [rooted_nodePath, latest_of_holder hr]
  have hmem := (mem_of_holder hr).1
  constructor
  · intro h hparam
    have hliteral : ¬ HasLiteral routes url := by
      rintro ⟨r', -, hrooted', hnot⟩
      exact hnot (hparam.congr ((keys_of_rooted hrooted).trans (keys_of_rooted hrooted').symm))
    by_cases hex : ∃ r ∈ routes, Accepted beyond url r.1
    · obtain ⟨p, _, _, heq, hp, -⟩ := h.param hliteral hex
      rw [← (Outcome.ran.inj heq).1] at hp
      exact ((hnode r.1).mp hp).2
    · cases h.none hliteral hex
  · intro h
    have haccepted : ¬ HasLiteral routes url → Accepted beyond url r.1 := by
      intro hliteral
      have hparam : IsParam r.1 := by
        by_contra hnot
        exact hliteral ⟨r, hmem, hrooted, hnot⟩
      exact ⟨hparam, h hparam⟩
    refine ⟨fun _ => ⟨_, _, _, rfl, rooted_nodePath.trans hrooted, ?_⟩, fun hliteral _ =>
      ⟨_, _, _, rfl, (hnode r.1).mpr (haccepted hliteral), hlatest⟩, fun hliteral hnone =>
      absurd ⟨r, hmem, haccepted hliteral⟩ hnone⟩
    rw [← hrooted, latest_of_holder hr]

/-- Running no handler is right if no route has the path and none is accepted. -/
theorem dispatched_notFound : Dispatched beyond routes url (.notFound : Outcome H) ↔
    ¬ HasLiteral routes url ∧ ¬ ∃ r ∈ routes, Accepted beyond url r.1 := by
  constructor
  · intro h
    have hliteral : ¬ HasLiteral routes url := by
      intro hl
      obtain ⟨_, _, _, heq, -⟩ := h.literal hl
      cases heq
    refine ⟨hliteral, fun hex => ?_⟩
    obtain ⟨_, _, _, heq, -⟩ := h.param hliteral hex
    cases heq
  · rintro ⟨hliteral, hnone⟩
    exact ⟨fun h => absurd h hliteral, fun _ h => absurd h hnone, fun _ _ => rfl⟩

/-- Running the handler of `/` for `//` is not right. -/
theorem not_dispatched_twice {h : H} {params : Params} :
    ¬ Dispatched beyond routes [slash, slash] (.ran [slash] h params) := by
  intro hgood
  have hliteral : ¬ HasLiteral routes [slash, slash] := by
    rintro ⟨r, -, hrooted, -⟩
    exact head?_trimPathPrefix (s := r.1) (by rw [(List.cons.inj hrooted).2]; rfl)
  by_cases hex : ∃ r ∈ routes, Accepted beyond [slash, slash] r.1
  · obtain ⟨p, _, _, heq, hp, -⟩ := hgood.param hliteral hex
    rw [← (Outcome.ran.inj heq).1] at hp
    exact not_isParam_root hp.1
  · cases hgood.none hliteral hex

/-- A path that is that of a node's route is dispatched right exactly if the routes fit it. -/
theorem serve_exact_iff (hexact : IsExact routes (slash :: u)) :
    (∀ order, KeyTree.IsOrder order →
      Dispatched beyond routes (slash :: u) (serve beyond order (tree routes) (slash :: u))) ↔
      Fits beyond routes (slash :: u) := by
  obtain ⟨r, hr, hrooted⟩ := hexact
  have hinner : IsInner routes (slash :: u) :=
    ⟨r, (mem_of_holder hr).1, by rw [(mem_of_holder hr).2]⟩
  have hserve : ∀ order, serve beyond order (tree routes) (slash :: u) =
      .ran (nodePath r.1) r.2 fun _ => none := fun _ => serve_exact hr hrooted
  simp only [hserve, dispatched_exact hr hrooted]
  constructor
  · intro h
    refine ⟨fun r' hr' _ => ?_, fun hnot => absurd ⟨r, hr, hrooted⟩ hnot,
      fun hnot => absurd hinner hnot, fun hnot => absurd hinner hnot⟩
    obtain rfl := Option.some.inj (hr.symm.trans hr')
    exact h _ fun _ => List.Perm.refl _
  · intro h _ _
    exact h.exact r hr hrooted

/-- So is a path at an inner node, for which nothing is run. -/
theorem serve_inner_iff (hexact : ¬ IsExact routes (slash :: u))
    (hinner : IsInner routes (slash :: u)) :
    (∀ order, KeyTree.IsOrder order →
      Dispatched beyond routes (slash :: u) (serve beyond order (tree routes) (slash :: u))) ↔
      Fits beyond routes (slash :: u) := by
  have ho : KeyTree.IsOrder (KeyTree.children : Node H → List (Text × Node H)) :=
    fun _ => List.Perm.refl _
  constructor
  · intro h
    refine ⟨fun r hr hrooted => absurd ⟨r, hr, hrooted⟩ hexact, fun _ _ => ?_,
      fun hnot => absurd hinner hnot, fun hnot => absurd hinner hnot⟩
    by_cases htwice : slash :: u = [slash, slash] ∧ HasRoot routes
    · obtain ⟨hu, handle, hr⟩ := htwice
      have hgood := h _ ho
      rw [hu, serve_twice hr] at hgood
      exact absurd hgood not_dispatched_twice
    · have hgood := h _ ho
      rw [serve_inner ho hexact hinner htwice] at hgood
      obtain ⟨hliteral, hnot⟩ := dispatched_notFound.mp hgood
      exact ⟨hliteral, hnot, htwice⟩
  · intro h order ho
    obtain ⟨hliteral, hnot, htwice⟩ := h.inner hexact hinner
    rw [serve_inner ho hexact hinner htwice]
    exact dispatched_notFound.mpr ⟨hliteral, hnot⟩

/-- And a path without a node, for which the regex pass looks at the routes that it tries. -/
theorem serve_pass_iff (hroutes : routes ≠ []) (hexact : ¬ IsExact routes (slash :: u))
    (hinner : ¬ IsInner routes (slash :: u)) :
    (∀ order, KeyTree.IsOrder order →
      Dispatched beyond routes (slash :: u) (serve beyond order (tree routes) (slash :: u))) ↔
      Fits beyond routes (slash :: u) := by
  have ho : KeyTree.IsOrder (KeyTree.children : Node H → List (Text × Node H)) :=
    fun _ => List.Perm.refl _
  have hnone : ∀ r, holder routes (keys (slash :: u)) = some r → rooted r.1 = slash :: u →
      False := fun r hr hrooted => hexact ⟨r, hr, hrooted⟩
  obtain ⟨-, hu⟩ := ne_nil_of_not_inner hroutes hinner
  simp only [serve_missing hroutes hinner]
  by_cases hpart : u.takeWhile (· != slash) ≠ [] ∨ HasRoot routes
  · obtain ⟨ks, n, hn, hfind, htried⟩ := find_part hpart
    simp only [hfind]
    constructor
    · intro h
      exact ⟨fun r hr hrooted => (hnone r hr hrooted).elim, fun _ h => absurd h hinner,
        fun _ hex => searched_of_dispatched hn htried hinner h hex,
        fun _ c hc hctried htrap => nearest_of_dispatched hu hn htried hinner h hc hctried htrap⟩
    · exact fun h order ho => dispatched_pass hu ho hn htried hinner h
  · obtain ⟨hnil, hroot⟩ := not_or.mp hpart
    have huntried : ∀ p, ¬ IsTried routes (slash :: u) p := by
      intro p htried
      rw [IsTried, List.drop_one, List.tail_cons, if_pos (not_not.mp hnil)] at htried
      exact hroot htried
    simp only [not_not.mp hnil, find_part_nil hroot, firstMatch_root hu, dispatched_notFound]
    constructor
    · intro h
      exact ⟨fun r hr hrooted => (hnone r hr hrooted).elim, fun _ h => absurd h hinner,
        fun _ hex => absurd hex (h _ ho).2, fun _ c _ hctried => absurd hctried (huntried _)⟩
    · intro h order _
      refine ⟨not_hasLiteral hinner, fun hex => ?_⟩
      obtain ⟨r, -, htried, -⟩ := h.searched hinner hex
      exact huntried _ htried

/-- **A request is dispatched right exactly if the routes fit its path**, for one tree. -/
theorem serve_iff (hroutes : routes ≠ []) :
    (∀ order, KeyTree.IsOrder order →
      Dispatched beyond routes (slash :: u) (serve beyond order (tree routes) (slash :: u))) ↔
      Fits beyond routes (slash :: u) := by
  by_cases hexact : IsExact routes (slash :: u)
  · exact serve_exact_iff hexact
  · by_cases hinner : IsInner routes (slash :: u)
    · exact serve_inner_iff hexact hinner
    · exact serve_pass_iff hroutes hexact hinner

/-- **A request is dispatched right, in whatever order the tables of children are iterated, exactly
if the routes that were added for its method fit its path.** -/
theorem serveHttp_iff (beyond : Text → Text → Option (Option (List Text)))
    (calls : List (Text × Text × H)) (method u : Text) :
    (∀ order, KeyTree.IsOrder order → Dispatched beyond (routesOf calls method) (slash :: u)
      ((registered calls).serveHttp beyond order method (slash :: u))) ↔
      Fits beyond (routesOf calls method) (slash :: u) := by
  by_cases hroutes : routesOf calls method = []
  · have hserve : ∀ order, (registered calls).serveHttp beyond order method (slash :: u) =
        .notFound := by
      intro order
      rw [Router.serveHttp, trees_registered, if_pos hroutes]
    simp only [hserve, dispatched_notFound, hroutes]
    constructor
    · intro _
      refine ⟨?_, ?_, ?_, ?_⟩
      · intro r hr
        cases hr
      · rintro - ⟨r, hr, -⟩
        cases hr
      · rintro - ⟨r, hr, -⟩
        cases hr
      · rintro - c hc
        cases hc
    · intro _ _ _
      constructor
      · rintro ⟨r, hr, -⟩
        cases hr
      · rintro ⟨r, hr, -⟩
        cases hr
  · rw [← serve_iff hroutes]
    simp only [Router.serveHttp, trees_registered, if_neg hroutes]

/-- `/a/b` and `/:x`. -/
def inFirstPlace : List (Text × Text × ℕ) :=
  [(ascii "GET", ascii "/a/b", 0), (ascii "GET", ascii "/:x", 1)]

/-- The routes `/a/b` and `/:x` and the path `/a`: the walk ends at a node, and `/:x` is not
tried. -/
theorem inFirstPlace_notFound :
    (registered inFirstPlace).serveHttp (fun _ _ => none) KeyTree.children (ascii "GET")
        (ascii "/a") = .notFound ∧
      ¬ Dispatched (fun _ _ => none) (routesOf inFirstPlace (ascii "GET")) (ascii "/a")
        ((registered inFirstPlace).serveHttp (fun _ _ => none) KeyTree.children (ascii "GET")
          (ascii "/a")) := by
  have hserve : (registered inFirstPlace).serveHttp (fun _ _ => none) KeyTree.children
      (ascii "GET") (ascii "/a") = .notFound := rfl
  have haccepted : Accepted (fun _ _ => none) (ascii "/a") (ascii "/:x") := by
    have hname : (compile (ascii "/:x")).matchName = [ascii "x"] := rfl
    refine ⟨by rw [IsParam, hname]; exact List.cons_ne_nil _ _,
      Function.update (fun _ => none) (ascii "x") (some (ascii "a")), rfl⟩
  refine ⟨hserve, fun h => ?_⟩
  rw [hserve] at h
  exact (dispatched_notFound.mp h).2 ⟨(ascii "/:x", 1), by decide, haccepted⟩

end ArchNet.TreeRouter

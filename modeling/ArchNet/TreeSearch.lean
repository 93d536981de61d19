import ArchNet.TreeRouter

/-!
# The Search of the Tree Router

What `Find` returns and `ServeHttp` makes of it, for a tree of routes: the walk along the keys of a
path ends at a node or leaves the tree.

## Main results

* `serve_exact`: **a node with the path** is the one whose handler is run.
* `serve_inner`: **a node without it** ends the search.
* `serve_missing`, `find_part`: **where the walk leaves the tree** the patterns below one node are
  matched in turn, those of the routes with the first key of the path or all of them.
-/

open Bytes EcmaScript

namespace ArchNet.TreeRouter

variable {H : Type} {beyond : Text → Text → Option (Option (List Text))}
  {order : Node H → List (Text × Node H)} {routes : List (Text × H)} {r : Text × H}
  {ks : List Text} {s u p q url : Text} {n : Node H}

/-! ### Paths and keys -/

/-- The path of a route. -/
def rooted (pattern : Text) : Text := slash :: trimPathPrefix pattern

theorem trimPathPrefix_cons_slash : trimPathPrefix (slash :: s) = trimPathPrefix s :=
  List.dropWhile_cons_of_pos (p := (· == slash)) (beq_self_eq_true slash)

theorem trimPathPrefix_cons_of_ne {c : UInt8} (h : c ≠ slash) :
    trimPathPrefix (c :: s) = c :: s :=
  List.dropWhile_cons_of_neg (p := (· == slash)) fun hc => h (eq_of_beq hc)

/-- Without a slash in front there is nothing to trim. -/
theorem trimPathPrefix_of_head (h : s.head? ≠ some slash) : trimPathPrefix s = s := by
  cases s with
  | nil => rfl
  | cons c s => exact trimPathPrefix_cons_of_ne fun hc => h (congrArg some hc)

/-- A trimmed pattern does not start with a slash. -/
theorem head?_trimPathPrefix : (trimPathPrefix s).head? ≠ some slash := by
  intro h
  induction s with
  | nil => cases h
  | cons c s ih =>
      by_cases hc : c = slash
      · rw [hc, trimPathPrefix_cons_slash] at h
        exact ih h
      · rw [trimPathPrefix_cons_of_ne hc] at h
        exact hc (Option.some.inj h)

theorem trimPathPrefix_idem : trimPathPrefix (trimPathPrefix s) = trimPathPrefix s :=
  trimPathPrefix_of_head head?_trimPathPrefix

/-- The path that a node keeps is trimmed to the same text as the one registered. -/
theorem trimPathPrefix_nodePath : trimPathPrefix (nodePath p) = trimPathPrefix p := by
  rw [nodePath]
  split
  · rfl
  · exact trimPathPrefix_idem

/-- The path that a node keeps leads along the same keys. -/
theorem keys_nodePath : keys (nodePath p) = keys p := by
  rw [keys, trimPathPrefix_nodePath, keys]

/-- The path that a node keeps has the same spelling from the root. -/
theorem rooted_nodePath : rooted (nodePath p) = rooted p := by
  rw [rooted, trimPathPrefix_nodePath, rooted]

theorem keys_cons_slash : keys (slash :: s) = keys s := by
  rw [keys, trimPathPrefix_cons_slash, keys]

/-- From the root on, a path leads along the same keys. -/
theorem keys_rooted : keys (rooted p) = keys p := by
  rw [rooted, keys_cons_slash, keys, trimPathPrefix_idem, keys]

theorem keys_of_rooted (h : rooted p = url) : keys p = keys url := by rw [← h, keys_rooted]

/-- A path is compiled from its keys: what is before them are empty pieces. -/
theorem compile_eq : compile p = (keys p).foldl Compiled.piece {} := by
  rw [compile]
  induction p with
  | nil => rfl
  | cons c p ih =>
      by_cases hc : c = slash
      · rw [hc, splitPattern, if_pos rfl, List.foldl_cons, Compiled.piece_nil, ih, keys_cons_slash]
      · rw [keys, trimPathPrefix_cons_of_ne hc]

/-- A pattern is compiled from its keys. -/
theorem compile_congr (h : keys p = keys q) : compile p = compile q := by
  rw [compile_eq, compile_eq, h]

/-- A pattern matches by its keys. -/
theorem matchAndParse_congr (h : keys p = keys q) {params : Params} :
    matchAndParse beyond url p params = matchAndParse beyond url q params := by
  rw [matchAndParse, matchAndParse, compile_congr h]

/-- Only the empty text has no pieces. -/
theorem splitPattern_eq_nil : splitPattern s = [] ↔ s = [] := by
  cases s with
  | nil => exact iff_of_true rfl rfl
  | cons c s =>
      refine iff_of_false (fun h => ?_) (List.cons_ne_nil _ _)
      rw [splitPattern] at h
      split at h
      · cases h
      · split at h <;> cases h

/-! ### The walk along the keys -/

/-- The entry of a node with a route is that of its last registration. -/
theorem entry_of_holder (h : holder routes ks = some r) :
    (entry routes ks).path = nodePath r.1 ∧ (entry routes ks).handle = some r.2 ∧
      (entry routes ks).isPattern = true := by
  rw [entry, h]
  exact ⟨rfl, rfl, rfl⟩

/-- The entry of a node without a route is empty. -/
theorem entry_of_none (h : holder routes ks = none) :
    (entry routes ks).path = [] ∧ (entry routes ks).handle = none ∧
      (entry routes ks).isPattern = false := by
  rw [entry, h]
  exact ⟨rfl, rfl, rfl⟩

/-- Below the root the path of a node leads to it. -/
theorem keys_path (hks : ks ≠ []) (hpath : (entry routes ks).path ≠ []) :
    ∃ r, holder routes ks = some r ∧ (entry routes ks).path = trimPathPrefix r.1 ∧
      keys r.1 = ks := by
  cases hr : holder routes ks with
  | none => exact absurd (entry_of_none hr).1 hpath
  | some r =>
      have hkeys := (mem_of_holder hr).2
      refine ⟨r, rfl, ?_, hkeys⟩
      rw [(entry_of_holder hr).1, nodePath, if_neg]
      intro h
      rw [h] at hkeys
      exact hks hkeys.symm

/-- No node before the end of the keys has the path that is looked for. -/
def Unnoticed (pattern : Text) (n : Node H) (ks : List Text) : Prop :=
  ∀ ks₁ c, ks₁ ≠ [] → ks₁ <+: ks → ks₁ ≠ ks → n.descend ks₁ = some c → pattern ≠ c.value.path

/-- What is not noticed from a node on is not noticed from its child on. -/
theorem Unnoticed.tail {key : Text} {c : Node H} (h : Unnoticed s n (key :: ks))
    (hc : n.child key = some c) : Unnoticed s c ks := by
  intro ks₁ d _ hprefix hne hd
  refine h (key :: ks₁) d (List.cons_ne_nil _ _) ((List.prefix_cons_inj key).mpr hprefix)
    (fun heq => hne (List.cons.inj heq).2) ?_
  rw [KeyTree.descend, hc]
  exact hd

/-- Where the keys lead out of the tree the walk ends with nothing. -/
theorem walk_missing (h : Unnoticed s n ks) (hnone : n.descend ks = none) :
    walk s false n ks = .missing := by
  induction ks generalizing n with
  | nil => cases hnone
  | cons key ks ih =>
      rw [walk]
      cases hc : n.child key with
      | none => rfl
      | some c =>
          have hdescend : n.descend [key] = some c := by rw [KeyTree.descend, hc]; rfl
          have hrest : c.descend ks = none := by
            rw [KeyTree.descend, hc] at hnone
            exact hnone
          have hne : [key] ≠ key :: ks := by
            intro heq
            rw [← (List.cons.inj heq).2] at hrest
            cases hrest
          have hpath := h [key] c (List.cons_ne_nil _ _) (List.prefix_append [key] ks) hne hdescend
          exact (if_neg fun heq => hpath heq.1).trans (ih (h.tail hc) hrest)

/-- Where the keys lead to a node the walk stops at it. -/
theorem walk_of_descend {m : Node H} (h : Unnoticed s n ks) (hm : n.descend ks = some m)
    (hne : ks ≠ []) :
    walk s false n ks = if s = m.value.path then .found m else .reached m := by
  induction ks generalizing n with
  | nil => exact absurd rfl hne
  | cons key ks ih =>
      obtain ⟨c, hc, hrest⟩ := Option.bind_eq_some_iff.mp hm
      have hdescend : n.descend [key] = some c := by rw [KeyTree.descend, hc]; rfl
      rw [walk, hc]
      by_cases hnil : ks = []
      · rw [hnil] at hrest
        obtain rfl := Option.some.inj hrest
        rw [hnil]
        by_cases hpath : s = c.value.path
        · exact (if_pos ⟨hpath, rfl⟩).trans (if_pos hpath).symm
        · exact (if_neg fun heq => hpath heq.1).trans (if_neg hpath).symm
      · have hpath := h [key] c (List.cons_ne_nil _ _) (List.prefix_append [key] ks)
          (fun heq => hnil (List.cons.inj heq).2.symm) hdescend
        exact (if_neg fun heq => hpath heq.1).trans (ih (h.tail hc) hrest hnil)

/-- In a tree of routes only the last node on the way has the path. -/
theorem unnoticed_tree (u : Text) : Unnoticed (trimPathPrefix u) (tree routes) (keys u) := by
  intro ks₁ c hne₁ hprefix hne hc heq
  rw [(value_of_descend hc).2] at heq
  have hnil : trimPathPrefix u ≠ [] := by
    intro h
    rw [keys, h] at hprefix
    exact hne₁ (List.prefix_nil.mp hprefix)
  obtain ⟨r, -, hpath, hkeys⟩ := keys_path hne₁ (heq ▸ hnil)
  refine hne ?_
  rw [← hkeys, keys, ← hpath, ← heq, keys]

/-! ### The root -/

/-- The root holds the entry of no keys. -/
theorem value_tree : (tree routes).value = entry routes [] := by
  obtain ⟨n, hn, hvalue⟩ := exists_node (show IsNode routes [] from .inl rfl)
  obtain rfl := Option.some.inj hn
  exact hvalue

/-- A path without keys is trimmed to nothing. -/
theorem trimPathPrefix_of_keys (h : keys p = []) : trimPathPrefix p = [] :=
  splitPattern_eq_nil.mp h

/-- The route `/` was added last for the root. -/
def HasRoot (routes : List (Text × H)) : Prop := ∃ h, holder routes [] = some ([slash], h)

/-- The root has the path of the route `/`, if that was added last, or none. -/
theorem path_root (routes : List (Text × H)) :
    (HasRoot routes ∧ (tree routes).value.path = [slash]) ∨
    (¬ HasRoot routes ∧ (tree routes).value.path = []) := by
  rw [value_tree]
  cases hr : holder routes [] with
  | none =>
      refine .inr ⟨?_, (entry_of_none hr).1⟩
      rintro ⟨h, heq⟩
      rw [hr] at heq
      cases heq
  | some r =>
      rw [(entry_of_holder hr).1, nodePath]
      by_cases hslash : r.1 = [slash]
      · rw [if_pos hslash]
        exact .inl ⟨⟨r.2, by rw [hr, ← hslash]⟩, hslash⟩
      · rw [if_neg hslash, trimPathPrefix_of_keys (mem_of_holder hr).2]
        refine .inr ⟨?_, rfl⟩
        rintro ⟨h, heq⟩
        rw [hr] at heq
        exact hslash (congrArg Prod.fst (Option.some.inj heq))

/-! ### The nodes below a node -/

/-- A node with a route comes first among the patterns below it. -/
theorem patternsBelow_of_isPattern (order : Node H → List (Text × Node H))
    (h : n.value.isPattern = true) :
    ∃ nodes, patternsBelow order n = n :: nodes := by
  cases n with
  | node v es =>
      rw [patternsBelow, KeyTree.height, KeyTree.breadthFirst, List.singleton_append]
      exact ⟨_, List.filter_cons_of_pos (p := fun n : Node H => n.value.isPattern) h⟩

/-- The patterns below a node are those at the end of longer keys. -/
theorem mem_patternsBelow (ho : KeyTree.IsOrder order) (hn : (tree routes).descend ks = some n)
    {m : Node H} : m ∈ patternsBelow order n ↔
      ∃ ks', (tree routes).descend (ks ++ ks') = some m ∧ m.value.isPattern = true := by
  have hdescend : ∀ ks', (tree routes).descend (ks ++ ks') = n.descend ks' := by
    intro ks'
    rw [KeyTree.descend_append, hn, Option.bind_some]
  simp only [patternsBelow, KeyTree.breadthFirst_eq, List.flatMap_singleton, List.mem_filter,
    List.mem_flatMap, List.mem_range, KeyTree.mem_level (distinct_tree.descend hn) ho, hdescend]
  constructor
  · rintro ⟨⟨d, -, ks', -, hm⟩, hpattern⟩
    exact ⟨ks', hm, hpattern⟩
  · rintro ⟨ks', hm, hpattern⟩
    have hle := KeyTree.length_lt_height hm
    have hpos : 0 < m.height := by cases m; exact Nat.succ_pos _
    exact ⟨⟨ks'.length, by omega, ks', rfl, hm⟩, hpattern⟩

/-- A pattern node has a route. -/
theorem holder_of_isPattern (hn : (tree routes).descend ks = some n)
    (h : n.value.isPattern = true) :
    ∃ r, holder routes ks = some r ∧ n.value.path = nodePath r.1 ∧ n.value.handle = some r.2 := by
  rw [(value_of_descend hn).2] at h ⊢
  cases hr : holder routes ks with
  | none =>
      rw [(entry_of_none hr).2.2] at h
      cases h
  | some r => exact ⟨r, rfl, (entry_of_holder hr).1, (entry_of_holder hr).2.1⟩

/-! ### What the search finds -/

/-- The path of the root finds the root alone. -/
theorem find_root {root : Node H} (hroot : url = root.value.path) :
    find order root url false = [root] := if_pos hroot

/-- A path without keys, spelled otherwise than the root's, finds all patterns. -/
theorem find_above (hroot : url ≠ (tree routes).value.path) (hkeys : keys url = []) :
    find order (tree routes) url false = patternsBelow order (tree routes) := by
  rw [find, if_neg hroot]
  have hsplit : splitPattern (trimPathPrefix url) = [] := hkeys
  simp only [Bool.false_eq_true, if_false, hsplit, walk]

/-- A path with keys is not that of the root. -/
theorem ne_path_root (hkeys : keys url ≠ []) : url ≠ (tree routes).value.path := by
  rintro rfl
  rcases path_root routes with ⟨-, hpath⟩ | ⟨-, hpath⟩ <;> rw [hpath] at hkeys <;>
    exact hkeys rfl

/-- A path that leads to a node finds it alone if the spelling is that of the node, and the
patterns below it if not. -/
theorem find_node (hkeys : keys url ≠ []) (hn : (tree routes).descend (keys url) = some n) :
    find order (tree routes) url false =
      if trimPathPrefix url = n.value.path then [n] else patternsBelow order n := by
  have hwalk := walk_of_descend (unnoticed_tree url) hn hkeys
  rw [keys] at hwalk
  rw [find, if_neg (ne_path_root hkeys)]
  simp only [Bool.false_eq_true, if_false, hwalk]
  by_cases hpath : trimPathPrefix url = n.value.path
  · rw [if_pos hpath, if_pos hpath]
  · rw [if_neg hpath, if_neg hpath]

/-- A path that leads out of the tree finds nothing. -/
theorem find_missing (hkeys : keys url ≠ []) (hnone : (tree routes).descend (keys url) = none) :
    find order (tree routes) url false = [] := by
  have hwalk := walk_missing (unnoticed_tree url) hnone
  rw [keys] at hwalk
  rw [find, if_neg (ne_path_root hkeys)]
  simp only [Bool.false_eq_true, if_false, hwalk]

/-- The first node that is found runs its handle if it has the path of the request. -/
theorem serve_run {root : Node H} {nodes : List (Node H)} {h : H}
    (hfind : find order root (slash :: u) false = n :: nodes) (hhandle : n.value.handle = some h)
    (hpath : n.value.path = slash :: u ∨ n.value.path = u) :
    serve beyond order root (slash :: u) = .ran n.value.path h fun _ => none := by
  rw [serve, hfind]
  simp only [hhandle]
  by_cases hfull : n.value.path = slash :: u
  · rw [if_pos hfull]
  · rw [if_neg hfull, if_neg (List.cons_ne_nil _ _)]
    exact if_pos (hpath.resolve_left hfull)

/-- If the first node that is found has another path the request is answered with 404. -/
theorem serve_skip {root : Node H} {nodes : List (Node H)}
    (hfind : find order root (slash :: u) false = n :: nodes) (hfull : n.value.path ≠ slash :: u)
    (hpath : n.value.path ≠ u) : serve beyond order root (slash :: u) = .notFound := by
  rw [serve, hfind]
  cases hhandle : n.value.handle with
  | none => simp only [hhandle]
  | some h =>
      simp only [hhandle]
      rw [if_neg hfull, if_neg (List.cons_ne_nil _ _)]
      exact if_neg hpath

/-! ### A node for the path -/

/-- The route added last for the keys of a path has this path. -/
def IsExact (routes : List (Text × H)) (url : Text) : Prop :=
  ∃ r, holder routes (keys url) = some r ∧ rooted r.1 = url

/-- The keys of a path lead to a node. -/
def IsInner (routes : List (Text × H)) (url : Text) : Prop :=
  ∃ r ∈ routes, keys url <+: keys r.1

/-- **The route with the path is run.** -/
theorem serve_exact (hr : holder routes (keys url) = some r) (hrooted : rooted r.1 = url) :
    serve beyond order (tree routes) url = .ran (nodePath r.1) r.2 fun _ => none := by
  obtain rfl := hrooted.symm
  have hnode : IsNode routes (keys (rooted r.1)) :=
    .inr ⟨r, (mem_of_holder hr).1, by rw [keys_rooted]⟩
  obtain ⟨n, hn, hvalue⟩ := exists_node hnode
  obtain ⟨hpath, hhandle, hpattern⟩ := hvalue ▸ entry_of_holder hr
  have hslashed : nodePath r.1 = rooted r.1 ∨ nodePath r.1 = trimPathPrefix r.1 := by
    rw [nodePath]
    split
    · next hslash => exact .inl (by rw [hslash]; rfl)
    · exact .inr rfl
  rw [← hpath] at hslashed ⊢
  by_cases hkeys : keys (rooted r.1) = []
  · rw [hkeys] at hn
    obtain rfl := Option.some.inj hn
    by_cases hroot : rooted r.1 = (tree routes).value.path
    · exact serve_run (find_root hroot) hhandle hslashed
    · obtain ⟨nodes, hnodes⟩ := patternsBelow_of_isPattern order hpattern
      exact serve_run ((find_above hroot hkeys).trans hnodes) hhandle hslashed
  · have hne : r.1 ≠ [slash] := by
      rintro heq
      rw [heq] at hkeys
      exact hkeys rfl
    have hfound : trimPathPrefix (rooted r.1) = n.value.path := by
      rw [hpath, nodePath, if_neg hne, rooted, trimPathPrefix_cons_slash, trimPathPrefix_idem]
    exact serve_run ((find_node hkeys hn).trans (if_pos hfound)) hhandle hslashed

/-- A pattern node below the keys of a path does not have the path itself, if no route has it. -/
theorem path_ne (hexact : ¬ IsExact routes (slash :: u))
    (htwice : ¬ (slash :: u = [slash, slash] ∧ HasRoot routes))
    (hn : (tree routes).descend ks = some n) (hpattern : n.value.isPattern = true) :
    n.value.path ≠ slash :: u ∧ n.value.path ≠ u := by
  obtain ⟨⟨path, h⟩, hr, hpath, -⟩ := holder_of_isPattern hn hpattern
  have hkeys := (mem_of_holder hr).2
  have hrooted : rooted path ≠ slash :: u := by
    intro heq
    rw [← hkeys, keys_of_rooted heq] at hr
    exact hexact ⟨(path, h), hr, heq⟩
  rw [hpath, nodePath]
  by_cases hslash : path = [slash]
  · subst hslash
    rw [if_pos rfl]
    refine ⟨hrooted, ?_⟩
    rintro rfl
    have hnil : ks = [] := hkeys.symm
    exact htwice ⟨rfl, h, hnil ▸ hr⟩
  · rw [if_neg hslash]
    refine ⟨fun h => head?_trimPathPrefix (s := path) (by rw [h]; rfl), fun h => hrooted ?_⟩
    rw [rooted, h]

/-- **Where the keys lead to a node but no route has the path, no handler is run.** -/
theorem serve_inner (ho : KeyTree.IsOrder order) (hexact : ¬ IsExact routes (slash :: u))
    (hinner : IsInner routes (slash :: u))
    (htwice : ¬ (slash :: u = [slash, slash] ∧ HasRoot routes)) :
    serve beyond order (tree routes) (slash :: u) = .notFound := by
  obtain ⟨r, hr, rest, hrest⟩ := hinner
  have hnode : IsNode routes (keys (slash :: u)) := .inr ⟨r, hr, rest, hrest⟩
  obtain ⟨n, hn, -⟩ := exists_node hnode
  -- The node of the route that begins with the keys is a pattern below the node of the keys.
  have hbelow : patternsBelow order n ≠ [] := by
    have hbeyond : IsNode routes (keys r.1) := .inr ⟨r, hr, List.prefix_rfl⟩
    obtain ⟨m, hm, hvalue⟩ := exists_node hbeyond
    obtain ⟨r', hr'⟩ := exists_holder hr
    refine List.ne_nil_of_mem ((mem_patternsBelow ho hn).mpr ⟨rest, hrest.symm ▸ hm, ?_⟩)
    rw [hvalue, (entry_of_holder hr').2.2]
  obtain ⟨m, nodes, hnodes⟩ := List.exists_cons_of_ne_nil hbelow
  obtain ⟨ks, hm, hpattern⟩ := (mem_patternsBelow ho hn).mp (hnodes ▸ List.mem_cons_self ..)
  obtain ⟨hfull, hpath⟩ := path_ne hexact htwice hm hpattern
  by_cases hkeys : keys (slash :: u) = []
  · rw [hkeys] at hn
    obtain rfl := Option.some.inj hn
    have hroot : slash :: u ≠ (tree routes).value.path := by
      intro hroot
      rcases path_root routes with ⟨⟨h, hholder⟩, hvalue⟩ | ⟨-, hvalue⟩
      · rw [hvalue] at hroot
        exact hexact ⟨([slash], h), hkeys ▸ hholder, hroot.symm⟩
      · rw [hvalue] at hroot
        cases hroot
    exact serve_skip ((find_above hroot hkeys).trans hnodes) hfull hpath
  · by_cases hfound : trimPathPrefix (slash :: u) = n.value.path
    · have hne : (entry routes (keys (slash :: u))).path ≠ [] := by
        rw [← (value_of_descend hn).2, ← hfound]
        exact fun h => hkeys (by rw [keys, h]; rfl)
      obtain ⟨r', hr', -, -⟩ := keys_path hkeys hne
      have hpattern' : n.value.isPattern = true := by
        rw [(value_of_descend hn).2, (entry_of_holder hr').2.2]
      obtain ⟨hfull', hpath'⟩ := path_ne hexact htwice hn hpattern'
      exact serve_skip ((find_node hkeys hn).trans (if_pos hfound)) hfull' hpath'
    · exact serve_skip ((find_node hkeys hn).trans ((if_neg hfound).trans hnodes)) hfull hpath

/-- For `//` the handler of `/` is run. -/
theorem serve_twice {h : H} (hr : holder routes [] = some ([slash], h)) :
    serve beyond order (tree routes) [slash, slash] = .ran [slash] h fun _ => none := by
  obtain ⟨hpath, hhandle, hpattern⟩ := entry_of_holder hr
  rw [← value_tree] at hpath hhandle hpattern
  have hslash : (tree routes).value.path = [slash] := hpath
  have hroot : [slash, slash] ≠ (tree routes).value.path := by
    rw [hslash]
    exact fun heq => by cases heq
  obtain ⟨nodes, hnodes⟩ := patternsBelow_of_isPattern order hpattern
  rw [serve_run ((find_above hroot rfl).trans hnodes) hhandle (.inr hslash), hslash]

/-! ### A path without a node -/

/-- The regex pass tries a route: with two slashes before the path all of them, if there is a route
`/`, and else those that begin with the first key of the path, if there are any, and else all of
them. -/
def IsTried (routes : List (Text × H)) (url path : Text) : Prop :=
  let part := (url.drop 1).takeWhile (· != slash)
  if part = [] then HasRoot routes
  else (∃ r ∈ routes, [part] <+: keys r.1) → [part] <+: keys path

/-- The first key of a path that has no node is not the end of it. -/
theorem ne_nil_of_not_inner (hroutes : routes ≠ []) (h : ¬ IsInner routes (slash :: u)) :
    keys (slash :: u) ≠ [] ∧ u ≠ [] := by
  have hkeys : keys (slash :: u) ≠ [] := by
    intro heq
    obtain ⟨r, routes', rfl⟩ := List.exists_cons_of_ne_nil hroutes
    exact h ⟨r, List.mem_cons_self .., heq ▸ List.nil_prefix ..⟩
  refine ⟨hkeys, ?_⟩
  rintro rfl
  exact hkeys rfl

/-- Off the inner nodes the patterns below the first part of the path are tried. -/
theorem serve_missing (hroutes : routes ≠ []) (h : ¬ IsInner routes (slash :: u)) :
    serve beyond order (tree routes) (slash :: u) = firstMatch beyond (slash :: u)
      (find order (tree routes) (u.takeWhile (· != slash)) true) := by
  obtain ⟨hkeys, hu⟩ := ne_nil_of_not_inner hroutes h
  have hnone : (tree routes).descend (keys (slash :: u)) = none := by
    cases hn : (tree routes).descend (keys (slash :: u)) with
    | none => rfl
    | some n => exact absurd ((value_of_descend hn).1.resolve_left hkeys) h
  have hpart : (splitPattern (slash :: u))[1]? = some (u.takeWhile (· != slash)) := by
    rw [splitPattern, if_pos rfl, List.getElem?_cons_succ]
    clear hkeys hnone h
    induction u with
    | nil => exact absurd rfl hu
    | cons c u ih =>
        rw [splitPattern]
        by_cases hc : c = slash
        · rw [if_pos hc, hc]
          rfl
        · have htake : (c :: u).takeWhile (· != slash) = c :: u.takeWhile (· != slash) :=
            List.takeWhile_cons_of_pos (p := (· != slash)) (bne_iff_ne.mpr hc)
          rw [if_neg hc, htake]
          cases u with
          | nil => rfl
          | cons d u =>
              have hrest := ih (List.cons_ne_nil _ _)
              cases hsplit : splitPattern (d :: u) with
              | nil => rw [hsplit] at hrest; cases hrest
              | cons piece pieces =>
                  rw [hsplit] at hrest
                  exact congrArg (fun p => some (c :: p)) (Option.some.inj hrest)
  rw [serve, find_missing hkeys hnone]
  simp only [hpart]

/-- Without a route `/` the regex pass for two slashes looks at the root only. -/
theorem find_part_nil (h : ¬ HasRoot routes) :
    find order (tree routes) [] true = [tree routes] := by
  rcases path_root routes with ⟨hroot, -⟩ | ⟨-, hpath⟩
  · exact absurd hroot h
  · exact if_pos hpath.symm

/-- A path with two slashes in front is tried with all routes, if there is a route `/`. -/
theorem find_part_root (hnil : u.takeWhile (· != slash) = []) (hroot : HasRoot routes) :
    (∀ order, find order (tree routes) (u.takeWhile (· != slash)) true =
      patternsBelow order (tree routes)) ∧
    ∀ p, IsTried routes (slash :: u) p := by
  refine ⟨fun order => ?_, fun p => ?_⟩
  · rcases path_root routes with ⟨-, hpath⟩ | ⟨hneg, -⟩
    · have hne : [] ≠ (tree routes).value.path := by rw [hpath]; exact (List.cons_ne_nil _ _).symm
      rw [hnil, find, if_neg hne]
      rfl
    · exact absurd hroot hneg
  · rw [IsTried, List.drop_one, List.tail_cons]
    exact (iff_of_eq (if_pos hnil)).mpr hroot

/-- Any other path is tried with the routes below its first key, or with all. -/
theorem find_part_key (hnil : u.takeWhile (· != slash) ≠ [])
    (order : Node H → List (Text × Node H)) :
    find order (tree routes) (u.takeWhile (· != slash)) true =
      patternsBelow order (((tree routes).child (u.takeWhile (· != slash))).getD
        (tree routes)) := by
  have hslash : slash ∉ u.takeWhile (· != slash) := by
    intro hmem
    exact absurd (List.mem_takeWhile_imp hmem) (by decide)
  have hne : u.takeWhile (· != slash) ≠ (tree routes).value.path := by
    intro heq
    rcases path_root routes with ⟨-, hpath⟩ | ⟨-, hpath⟩
    · rw [heq, hpath] at hslash
      exact hslash (List.mem_singleton_self _)
    · exact hnil (heq.trans hpath)
  rw [find, if_neg hne]
  simp only [if_true, splitPattern_of_not_mem hslash hnil, walk]
  cases (tree routes).child (u.takeWhile (· != slash)) with
  | none => rfl
  | some c =>
      have hregex : ¬ (u.takeWhile (· != slash) = c.value.path ∧ true = false) :=
        fun h => by cases h.2
      simp only [if_neg hregex]
      rfl

/-- **The regex pass takes all patterns below one node**, those of the routes it tries. -/
theorem find_part (hpart : u.takeWhile (· != slash) ≠ [] ∨ HasRoot routes) :
    ∃ ks n, (tree routes).descend ks = some n ∧
      (∀ order, find order (tree routes) (u.takeWhile (· != slash)) true =
        patternsBelow order n) ∧
      ∀ p, IsTried routes (slash :: u) p ↔ ks <+: keys p := by
  by_cases hnil : u.takeWhile (· != slash) = []
  · obtain ⟨hfind, htried⟩ := find_part_root hnil (hpart.resolve_left (not_not_intro hnil))
    exact ⟨[], tree routes, rfl, hfind, fun p => iff_of_true (htried p) List.nil_prefix⟩
  · have hfind : ∀ order, find order (tree routes) (u.takeWhile (· != slash)) true =
        patternsBelow order (((tree routes).child (u.takeWhile (· != slash))).getD
          (tree routes)) := find_part_key hnil
    have htried : ∀ p, IsTried routes (slash :: u) p ↔
        ((∃ r ∈ routes, [u.takeWhile (· != slash)] <+: keys r.1) →
          [u.takeWhile (· != slash)] <+: keys p) := by
      intro p
      rw [IsTried, List.drop_one, List.tail_cons]
      exact iff_of_eq (if_neg hnil)
    cases hc : (tree routes).child (u.takeWhile (· != slash)) with
    | none =>
        refine ⟨[], tree routes, rfl, fun order => by rw [hfind, hc]; rfl, fun p => ?_⟩
        refine (htried p).trans (iff_of_true (fun hex => ?_) List.nil_prefix)
        obtain ⟨n, hn, -⟩ := exists_node (show IsNode routes _ from .inr hex)
        rw [KeyTree.descend, hc] at hn
        cases hn
    | some c =>
        have hdescend : (tree routes).descend [u.takeWhile (· != slash)] = some c := by
          rw [KeyTree.descend, hc]
          rfl
        refine ⟨[u.takeWhile (· != slash)], c, hdescend, fun order => by rw [hfind, hc]; rfl,
          fun p => (htried p).trans ⟨fun h => h ?_, fun h _ => h⟩⟩
        exact (value_of_descend hdescend).1.resolve_left (List.cons_ne_nil _ _)

end ArchNet.TreeRouter

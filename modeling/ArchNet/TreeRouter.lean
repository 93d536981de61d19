import ArchNet.Bytes
import ArchNet.KeyTree
import ArchNet.TreeMatch

/-!
# The Tree Router

`Tree` and `Router` of `http/router/router.h`: a tree of path segments for each method, built by
`Handle` and searched by `ServeHttp`.

## Conventions

A node is the tree below it (`KeyTree`). The children stand in an `unordered_map`, whose order of
iteration the language leaves open: it is a parameter of the breadth-first search.

`prefix_`, `middleware_`, `parameters_` and `not_found_` are private and set by no function, so
that they are empty. A handler that is added can be called.

## Main definitions

* `add`, `find`, `serve`: the code, for one tree; `Router.handle` and `Router.serveHttp`.
* `tree`: the tree after the routes of a list have been added.

## Main results

* `valueAt_tree`: **what every node of a tree holds**: what the route added last for its keys has
  left there.
-/

open Bytes EcmaScript

namespace ArchNet.TreeRouter

variable {H : Type}

/-! ### The code -/

/-- `utils::trimPathPrefix`. -/
def trimPathPrefix (pattern : Text) : Text := pattern.dropWhile (· == slash)

/-- `Node`, less the children. -/
structure NodeData (H : Type) where
  key : Text
  path : Text := []
  handle : Option H := none
  depth : ℕ
  isPattern : Bool := false

abbrev Node (H : Type) := KeyTree Text (NodeData H)

/-- `new Node(key, currentNode->depth+1)`. -/
def newNode (key : Text) (parent : NodeData H) : NodeData H :=
  { key := key, depth := parent.depth + 1 }

/-- The `Tree` constructor. -/
def newTree : Node H := .node { key := [slash], depth := 1 } []

/-- What `Add` leaves at the last node. -/
def NodeData.register (pattern : Text) (handle : H) (v : NodeData H) : NodeData H :=
  { v with handle := some handle, isPattern := true, path := pattern }

/-- `Tree::Add`. -/
def add (root : Node H) (pattern : Text) (handle : H) : Node H :=
  if pattern ≠ root.value.key then
    root.place newNode (NodeData.register (trimPathPrefix pattern) handle)
      (splitPattern (trimPathPrefix pattern))
  else root.place newNode (NodeData.register pattern handle) []

/-- How the loop of `Find` over the keys ends. -/
inductive Walk (H : Type)
  | found (n : Node H)
  | missing
  | reached (n : Node H)

/-- The loop of `Find` over the keys. -/
def walk (pattern : Text) (isRegex : Bool) (node : Node H) : List Text → Walk H
  | [] => .reached node
  | key :: res =>
      match node.child key with
      | none => if isRegex then .reached node else .missing
      | some child =>
          if pattern = child.value.path ∧ isRegex = false then .found child
          else walk pattern isRegex child res

/-- The loop of `Find` over the queue. -/
def patternsBelow (order : Node H → List (Text × Node H)) (node : Node H) : List (Node H) :=
  (KeyTree.breadthFirst order node.height [node]).filter fun n => n.value.isPattern

/-- `Tree::Find`. -/
def find (order : Node H → List (Text × Node H)) (root : Node H) (pattern : Text)
    (isRegex : Bool) : List (Node H) :=
  if pattern = root.value.path then [root]
  else
    let pattern := if isRegex then pattern else trimPathPrefix pattern
    match walk pattern isRegex root (splitPattern pattern) with
    | .found n => [n]
    | .missing => []
    | .reached n => patternsBelow order n

/-- How a request ends: a handler is run, with the node's path and the parameters it leaves in
the request; no handler is run; or an exception is thrown, or the behaviour is undefined. -/
inductive Outcome (H : Type)
  | ran (path : Text) (handle : H) (params : Params)
  | notFound
  | regexError
  | outOfRange
  | undefined

/-- The loop of `ServeHttp` over the nodes that may match. -/
def firstMatch (beyond : Text → Text → Option (Option (List Text))) (requestUrl : Text) :
    List (Node H) → Outcome H
  | [] => .notFound
  | node :: nodes =>
      match node.value.handle with
      | none => firstMatch beyond requestUrl nodes
      | some handle =>
          if node.value.path ≠ requestUrl then
            match matchAndParse beyond requestUrl node.value.path fun _ => none with
            | none => .regexError
            | some (true, params) => .ran node.value.path handle params
            | some (false, _) => firstMatch beyond requestUrl nodes
          else firstMatch beyond requestUrl nodes

/-- `Router::ServeHttp`, given the tree of the method. -/
def serve (beyond : Text → Text → Option (Option (List Text)))
    (order : Node H → List (Text × Node H)) (root : Node H) (requestUrl : Text) : Outcome H :=
  match find order root requestUrl false with
  | node :: _ =>
      match node.value.handle with
      | none => .notFound
      | some handle =>
          if node.value.path = requestUrl then .ran node.value.path handle fun _ => none
          else if requestUrl = [] then .outOfRange
          else if node.value.path = requestUrl.drop 1 then
            .ran node.value.path handle fun _ => none
          else .notFound
  | [] =>
      match (splitPattern requestUrl)[1]? with
      | none => .undefined
      | some part => firstMatch beyond requestUrl (find order root part true)

/-- `methods`. -/
def methods : List Text := ["GET", "HEAD", "POST", "PUT", "PATCH", "DELETE"].map ascii

/-- `Router`. -/
structure Router (H : Type) where
  trees : Text → Option (Node H) := fun _ => none

/-- `Router::Handle`. -/
def Router.handle (r : Router H) (method path : Text) (handler : H) : Except Text (Router H) :=
  if method ∈ methods then
    .ok { trees := Function.update r.trees method
            (some (add ((r.trees method).getD newTree) path handler)) }
  else .error (ascii "invalid method: " ++ method)

/-- `Router::ServeHttp`. -/
def Router.serveHttp (r : Router H) (beyond : Text → Text → Option (Option (List Text)))
    (order : Node H → List (Text × Node H)) (method requestUrl : Text) : Outcome H :=
  match r.trees method with
  | none => .notFound
  | some root => serve beyond order root requestUrl

/-! ### The keys of a route -/

/-- The keys that lead to the node of a route. -/
def keys (path : Text) : List Text := splitPattern (trimPathPrefix path)

/-- The path that a route leaves at its node. -/
def nodePath (path : Text) : Text := if path = [slash] then path else trimPathPrefix path

/-- The tree after the routes of a list have been added. -/
def tree (routes : List (Text × H)) : Node H :=
  routes.foldl (fun t r => add t r.1 r.2) newTree

/-- The route added last for a list of keys. -/
def holder (routes : List (Text × H)) (ks : List Text) : Option (Text × H) :=
  routes.reverse.find? fun r => keys r.1 = ks

/-- What the node at the end of a list of keys holds. -/
def entry (routes : List (Text × H)) (ks : List Text) : NodeData H :=
  let fresh : NodeData H := { key := ks.getLast?.getD [slash], depth := ks.length + 1 }
  match holder routes ks with
  | none => fresh
  | some r => fresh.register (nodePath r.1) r.2

variable {routes : List (Text × H)} {r : Text × H} {ks : List Text} {s : Text}

/-- A registration takes over the node that its keys lead to. -/
theorem holder_concat : holder (routes ++ [r]) ks =
    if keys r.1 = ks then some r else holder routes ks := by
  rw [holder, List.reverse_append, List.reverse_singleton, List.singleton_append,
    List.find?_cons]
  by_cases h : keys r.1 = ks
  · rw [if_pos h, decide_eq_true h]
  · rw [if_neg h, decide_eq_false h]
    rfl

/-- A list of keys has a holder exactly if some route has these keys. -/
theorem holder_eq_none : holder routes ks = none ↔ ∀ r ∈ routes, keys r.1 ≠ ks := by
  simp only [holder, List.find?_eq_none, List.mem_reverse, decide_eq_true_eq, ne_eq]

/-- Who holds a node was registered, with the keys of the node. -/
theorem mem_of_holder (h : holder routes ks = some r) : r ∈ routes ∧ keys r.1 = ks :=
  ⟨List.mem_reverse.mp (List.mem_of_find?_eq_some h),
    of_decide_eq_true (List.find?_some (p := fun r : Text × H => keys r.1 = ks) h)⟩

/-- The node of every registration is held. -/
theorem exists_holder (h : r ∈ routes) : ∃ r', holder routes (keys r.1) = some r' := by
  cases hr : holder routes (keys r.1) with
  | none => exact absurd rfl (holder_eq_none.mp hr r h)
  | some r' => exact ⟨r', rfl⟩

/-- `Add` places the registration at the keys of its path. -/
theorem add_eq {t : Node H} (ht : t.value.key = [slash]) :
    add t r.1 r.2 = t.place newNode (NodeData.register (nodePath r.1) r.2) (keys r.1) := by
  rw [add, ht, nodePath]
  by_cases h : r.1 = [slash]
  · rw [if_neg (not_not_intro h), if_pos h, show keys r.1 = [] by rw [h]; rfl]
  · rw [if_pos h, if_neg h, keys]

/-- The tree grows by one `Add` at a time. -/
theorem tree_concat : tree (routes ++ [r]) = add (tree routes) r.1 r.2 := by
  rw [tree, List.foldl_append]
  rfl

/-- The key of the root is a slash. -/
theorem entry_key_nil (routes : List (Text × H)) : (entry routes []).key = [slash] := by
  rw [entry]
  cases holder routes [] <;> rfl

/-- The depth of a node counts the keys that lead to it. -/
theorem entry_depth : (entry routes ks).depth = ks.length + 1 := by
  rw [entry]
  cases holder routes ks <;> rfl

/-- A route leaves nothing of what was at its node before but the key and the depth. -/
theorem register_entry : (entry routes ks).register (nodePath r.1) r.2 =
    NodeData.register (nodePath r.1) r.2
      { key := ks.getLast?.getD [slash], depth := ks.length + 1 } := by
  rw [entry]
  cases holder routes ks <;> rfl

/-- There is a node at the end of a list of keys. -/
def IsNode (routes : List (Text × H)) (ks : List Text) : Prop :=
  ks = [] ∨ ∃ r ∈ routes, ks <+: keys r.1

/-- A registration adds the nodes on the way of its keys. -/
theorem isNode_concat : IsNode (routes ++ [r]) ks ↔ IsNode routes ks ∨ ks <+: keys r.1 := by
  simp only [IsNode, List.mem_append, List.mem_singleton, or_and_right, exists_or, exists_eq_left,
    or_assoc]

/-- A walk finds what the nodes hold, or would hold. -/
theorem reached_newNode {t : Node H} (ks : List Text)
    (hnode : ∀ ks, IsNode routes ks → t.valueAt ks = some (entry routes ks))
    (hnone : ∀ ks, ¬ IsNode routes ks → t.valueAt ks = none) :
    KeyTree.reached newNode ks t = entry routes ks := by
  induction ks using List.reverseRecOn with
  | nil => exact KeyTree.reached_of_valueAt (hnode [] (.inl rfl))
  | append_singleton ks k ih =>
      by_cases h : IsNode routes (ks ++ [k])
      · exact KeyTree.reached_of_valueAt (hnode _ h)
      · have hholder : holder routes (ks ++ [k]) = none :=
          holder_eq_none.mpr fun r hr heq => h (.inr ⟨r, hr, heq ▸ List.prefix_rfl⟩)
        rw [KeyTree.reached_concat (hnone _ h), ih, newNode, entry_depth, entry, hholder,
          List.getLast?_concat, List.length_append]
        rfl

/-- **What every node holds.** -/
theorem valueAt_tree : (IsNode routes ks → (tree routes).valueAt ks = some (entry routes ks)) ∧
    (¬ IsNode routes ks → (tree routes).valueAt ks = none) := by
  induction routes using List.reverseRecOn generalizing ks with
  | nil =>
      cases ks with
      | nil => exact ⟨fun _ => rfl, fun h => absurd (.inl rfl) h⟩
      | cons k ks =>
          refine ⟨fun h => ?_, fun _ => rfl⟩
          rcases h with h | ⟨r, hr, -⟩
          · cases h
          · cases hr
  | append_singleton routes r ih =>
      have hkey : (tree routes).value.key = [slash] := by
        rw [← entry_key_nil routes]
        exact congrArg NodeData.key (Option.some.inj ((@ih []).1 (.inl rfl)))
      have hreached := fun ks => reached_newNode ks (fun ks => (@ih ks).1) fun ks => (@ih ks).2
      rw [tree_concat, add_eq hkey, KeyTree.valueAt_place, hreached, hreached, isNode_concat]
      by_cases hks : ks = keys r.1
      · rw [if_pos hks, ← hks, register_entry, entry, holder_concat, if_pos hks.symm]
        exact ⟨fun _ => rfl, fun h => absurd (.inr List.prefix_rfl) h⟩
      · have hentry : entry (routes ++ [r]) ks = entry routes ks := by
          rw [entry, holder_concat, if_neg (Ne.symm hks), ← entry]
        rw [if_neg hks, hentry]
        by_cases hprefix : ks <+: keys r.1
        · rw [if_pos hprefix]
          exact ⟨fun _ => rfl, fun h => absurd (.inr hprefix) h⟩
        · rw [if_neg hprefix]
          exact ⟨fun h => ih.1 (h.resolve_right hprefix), fun h => ih.2 fun hn => h (.inl hn)⟩

/-- Every prefix of registered keys leads to a node, which holds the entry of these keys. -/
theorem exists_node (h : IsNode routes ks) :
    ∃ n, (tree routes).descend ks = some n ∧ n.value = entry routes ks :=
  Option.map_eq_some_iff.mp (valueAt_tree.1 h)

/-- A node holds what the route added last for its keys has left. -/
theorem value_of_descend {n : Node H} (h : (tree routes).descend ks = some n) :
    IsNode routes ks ∧ n.value = entry routes ks := by
  have hvalue : (tree routes).valueAt ks = some n.value := congrArg (Option.map _) h
  by_cases hnode : IsNode routes ks
  · exact ⟨hnode, Option.some.inj (hvalue.symm.trans (valueAt_tree.1 hnode))⟩
  · rw [valueAt_tree.2 hnode] at hvalue
    cases hvalue

/-- No node has two children with one key. -/
theorem distinct_tree : (tree routes).Distinct := by
  induction routes using List.reverseRecOn with
  | nil => exact .leaf _
  | append_singleton routes r ih =>
      rw [tree_concat, add]
      split
      · exact ih.place
      · exact ih.place

/-! ### The routes of a method -/

variable {calls : List (Text × Text × H)} {m : Text}

/-- The router after a list of calls of `Handle`: one that throws leaves it alone. -/
def registered (calls : List (Text × Text × H)) : Router H :=
  calls.foldl (fun r c => (r.handle c.1 c.2.1 c.2.2).toOption.getD r) {}

/-- The routes that were added for a method. -/
def routesOf (calls : List (Text × Text × H)) (m : Text) : List (Text × H) :=
  (calls.filter fun c => c.1 = m ∧ m ∈ methods).map Prod.snd

/-- **Each method has a tree of its own**, made for its first route. -/
theorem trees_registered : (registered calls).trees m =
    if routesOf calls m = [] then none else some (tree (routesOf calls m)) := by
  induction calls using List.reverseRecOn with
  | nil => rfl
  | append_singleton calls c ih =>
      have hlast : registered (calls ++ [c]) =
          ((registered calls).handle c.1 c.2.1 c.2.2).toOption.getD (registered calls) := by
        rw [registered, List.foldl_append]
        rfl
      have hroutes : routesOf (calls ++ [c]) m =
          routesOf calls m ++ if c.1 = m ∧ m ∈ methods then [c.2] else [] := by
        rw [routesOf, List.filter_append, List.map_append, ← routesOf]
        by_cases h : c.1 = m ∧ m ∈ methods
        · rw [if_pos h, List.filter_singleton, decide_eq_true h]
          rfl
        · rw [if_neg h, List.filter_singleton, decide_eq_false h]
          rfl
      rw [hlast, Router.handle]
      by_cases hmethod : c.1 ∈ methods
      · rw [if_pos hmethod]
        by_cases hm : c.1 = m
        · subst hm
          have hmem : c.1 = c.1 ∧ c.1 ∈ methods := ⟨rfl, hmethod⟩
          have hne : routesOf calls c.1 ++ [c.2] ≠ [] := List.concat_ne_nil _ _
          rw [hroutes, if_pos hmem, if_neg hne, tree_concat]
          refine (Function.update_self ..).trans (congrArg some ?_)
          rw [ih]
          split
          · next h => rw [h]; rfl
          · rfl
        · have hneg : ¬ (c.1 = m ∧ m ∈ methods) := fun h => hm h.1
          rw [hroutes, if_neg hneg, List.append_nil, ← ih]
          exact Function.update_of_ne (Ne.symm hm) ..
      · have hneg : ¬ (c.1 = m ∧ m ∈ methods) := fun h => hmethod (h.1 ▸ h.2)
        rw [hroutes, if_neg hmethod, if_neg hneg, List.append_nil, ← ih]
        rfl

end ArchNet.TreeRouter

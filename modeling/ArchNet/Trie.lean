import ArchNet.Bytes
import Mathlib.Data.List.Nodup
import Mathlib.Data.List.Infix
import Mathlib.Data.List.TakeWhile

/-!
# The Route Trie

`Trie` and `Node` of `http/trie.cc` and `http/node.h`: the nodes, the insertion of a pattern,
and what every trie keeps.

## Conventions

A `Node*` is the position of the node: `root` is at position `0` and the vector `nodes` follows
it, so that the position of a node is its `unique_id`. A read through a position where no node
stands is a read through a dangling pointer and has no result.

A text is a list of bytes. The code compares names with `strcmp`, which sees a text up to its
first NUL (`cstr`, `sameName`).

What is outside the program is `Env`: `std::regex_match`, for the pattern of a segment and for
the constraint of a parameter alike, and the random part of an id.

`allow`, `colon_parent` and the ids of actions are read by no function that is modelled.

## Main definitions

* `Node`, `TrieData`, and `Trie`, which carries the invariant `TrieData.Ok`.
* `getOrNewNode`, `insertNode`, `addNode`: an exception leaves the nodes that were made before.

## Main results

* `TrieData.Ok.addNode`: **every insertion keeps the invariant**, whether it throws or not.
* `Grows`: a trie only grows, and `grows_addNode`.
-/

open Bytes

namespace ArchNet.Routing

abbrev Text := List UInt8

/-- What a C function sees of a text. -/
def cstr (s : Text) : Text := s.takeWhile (· != 0)

/-- A text without a NUL is passed whole. -/
theorem cstr_eq_self {s : Text} (h : (0 : UInt8) ∉ s) : cstr s = s := by
  rw [cstr, List.takeWhile_eq_self_iff]
  intro c hc
  have hne : c ≠ 0 := fun heq => h (heq ▸ hc)
  simpa using hne

/-- `std::strcmp(a.c_str(), b.c_str()) == 0`. -/
def sameName (a b : Text) : Bool := cstr a == cstr b

/-- The byte `'/'`. -/
def slash : UInt8 := 47

/-! ### `utils/util.h` -/

/-- `string_split`: the pieces between the delimiters, empty ones included. -/
def stringSplit (delim : UInt8) : Text → List Text
  | [] => [[]]
  | c :: s =>
      if c = delim then [] :: stringSplit delim s
      else
        match stringSplit delim s with
        | [] => [[c]]
        | piece :: pieces => (c :: piece) :: pieces

/-- `isspace` in the C locale. -/
def isspace (c : UInt8) : Bool := c == 32 || (9 ≤ c && c ≤ 13)

/-- `trim_path_spaces`. -/
def trimPathSpaces (s : Text) : Text := s.filter fun c => !isspace c

/-- `trim_prefix_slash`. -/
def trimPrefixSlash (s : Text) : Text := s.dropWhile (· == slash)

/-- How an insertion fails: the code's own `Exception` with a text, `std::out_of_range` of a
`substr`, or a read through a dangling pointer, which has no defined result. -/
inductive Failure
  | exception (msg : Text)
  | outOfRange
  | undefined
  deriving Repr, DecidableEq

/-- The world outside: `std::regex_match(str, std::regex(pattern))`, and the results of
`gen_random_str`, which have the length asked for. -/
structure Env where
  regexMatch : Text → Text → Bool
  randomStr : ℕ → Text
  length_randomStr : ∀ n, (randomStr n).length = 10

/-- `is_str_match_regex`. -/
def Env.isStrMatchRegex (env : Env) (str regex : Text) : Bool :=
  if regex = [] then false else env.regexMatch str regex

/-! ### Nodes -/

/-- An entry of `children`. -/
structure NodeHolder where
  key : Text
  val : ℕ
  deriving Repr, DecidableEq

/-- A registered action and the node it is registered at. -/
structure ActionHolder (M : Type) where
  node : ℕ
  func : M
  deriving Repr, DecidableEq

/-- `Node`. -/
structure Node (M : Type) where
  id : Text
  isRoot : Bool := false
  name : Text := []
  pattern : Text := []
  endpoint : Bool := false
  parent : Option ℕ := none
  children : List NodeHolder := []
  colonChild : Option ℕ := none
  handlers : List (Text × List (ActionHolder M)) := []
  middlewares : List (ActionHolder M) := []
  regex : Text := []
  deriving Repr, DecidableEq

/-- `Node::find_child`. -/
def Node.findChild {M : Type} (n : Node M) (key : Text) : Option ℕ :=
  (n.children.find? fun h => sameName key h.key).map NodeHolder.val

/-- The id of the node with this number: `node_`, ten random characters, `_` and the number. -/
def Env.nodeId (env : Env) (uniqueId : ℕ) : Text :=
  ascii "node_" ++ env.randomStr uniqueId ++ ascii "_" ++ decimal uniqueId

/-- The members of `Trie` that are read: `_strict_route`, `_segment_pattern`,
`_max_fallback_depth`, the nodes and `_counter`. -/
structure TrieData (M : Type) where
  strictRoute : Bool
  segmentPattern : Text
  maxFallbackDepth : ℤ
  nodes : List (Node M)
  counter : ℕ
  deriving Repr, DecidableEq

variable {M : Type}

/-- A read through a pointer. -/
def TrieData.node? (t : TrieData M) (p : ℕ) : Option (Node M) := t.nodes[p]?

/-- A write through a pointer. -/
def TrieData.modify (t : TrieData M) (p : ℕ) (f : Node M → Node M) : TrieData M :=
  { t with nodes := t.nodes.modify p f }

/-- `_counter++` and `nodes.emplace_back`. -/
def TrieData.push (t : TrieData M) (n : Node M) : TrieData M :=
  { t with nodes := t.nodes ++ [n], counter := t.counter + 1 }

/-- `parent->children.emplace_back` of a node under its key. -/
def TrieData.addChild (t : TrieData M) (parent : ℕ) (key : Text) (c : ℕ) : TrieData M :=
  t.modify parent fun n => { n with children := n.children ++ [⟨key, c⟩] }

/-- `parent->colon_child = node`. -/
def TrieData.setColonChild (t : TrieData M) (parent c : ℕ) : TrieData M :=
  t.modify parent fun n => { n with colonChild := some c }

/-- The constructor of `Trie`; the root has its own id. -/
def TrieData.new (env : Env) (strictRoute : Bool) (segmentPattern : Text)
    (maxFallbackDepth : ℤ) : TrieData M :=
  { strictRoute, segmentPattern, maxFallbackDepth
    nodes := [{ id := ascii "root_" ++ env.randomStr 0, isRoot := true }]
    counter := 0 }

/-! ### Insertion -/

/-- `_check_segment`. -/
def TrieData.checkSegment (env : Env) (t : TrieData M) (segment : Text) : Bool :=
  env.regexMatch segment t.segmentPattern

/-- The name and the constraint of a parameter segment: `:name` or `:name(regex)`. -/
def colonParts (frag : Text) : Except Failure (Text × Text) :=
  let name := frag.drop 1
  match name.getLast? with
  | none => .error .outOfRange
  | some trailing =>
      if trailing = 41 ∧ 40 ∈ name then
        let index := name.idxOf 40
        let regex := (name.drop (index + 1)).take (name.length - index - 2)
        if regex = [] then .error (.exception (ascii "invalid pattern[1]: " ++ frag))
        else .ok (name.take index, regex)
      else .ok (name, [])

/-- `_check_colon_child`: the two have the same name and the same constraint. -/
def checkColonChild (name regex : Text) (colonChild : Node M) : Bool :=
  sameName name colonChild.name && sameName regex colonChild.regex

/-- The text of the exceptions about a segment that `_segment_pattern` refuses. -/
def TrieData.illegal (t : TrieData M) (what : String) (name : Text) : Failure :=
  .exception (ascii what ++ name ++ ascii ", valid pattern is [" ++ t.segmentPattern ++ ascii "]")

/-- `_get_or_new_node`, from where the parameter segment has been taken apart. -/
def TrieData.newColonChild (env : Env) (t : TrieData M) (parent : ℕ) (p : Node M) (fresh : Node M)
    (name regex : Text) : TrieData M × Except Failure ℕ :=
  if t.checkSegment env name = false then
    (t.push { fresh with regex }, .error (t.illegal "invalid pattern[2], illegal path:" name))
  else
    let t' := t.push { fresh with name, regex }
    match p.colonChild with
    | none => (t'.setColonChild parent t.nodes.length, .ok t.nodes.length)
    | some c =>
        match t.node? c with
        | none => (t', .error .undefined)
        | some child =>
            -- the new node stays in `nodes` with no link to it
            if checkColonChild name regex child then (t', .ok c)
            else (t', .error (.exception (ascii "invalid pattern[3]: [" ++ name ++
              ascii "] conflict with [" ++ child.name ++ ascii "]")))

/-- The segment as `_get_or_new_node` takes it. -/
def fragOf (segment : Text) : Text := if sameName (ascii "/") segment then [] else segment

/-- `_get_or_new_node`. -/
def TrieData.getOrNewNode (env : Env) (t : TrieData M) (parent : ℕ) (p : Node M) (segment : Text) :
    TrieData M × Except Failure ℕ :=
  let frag := fragOf segment
  match p.findChild frag with
  | some c => (t, .ok c)
  | none =>
      let fresh : Node M := { id := env.nodeId (t.counter + 1), parent := some parent }
      if frag = [] then ((t.push fresh).addChild parent frag t.nodes.length, .ok t.nodes.length)
      else if frag.head? = some 58 then
        match colonParts frag with
        | .error e => (t.push fresh, .error e)
        | .ok (name, regex) => t.newColonChild env parent p fresh name regex
      else if t.checkSegment env frag = false then
        (t.push fresh, .error (t.illegal "invalid pattern[4], " frag))
      else ((t.push fresh).addChild parent frag t.nodes.length, .ok t.nodes.length)

/-- `_insert_node`, along the segments behind the first one. -/
def TrieData.insertNode (env : Env) (t : TrieData M) (parent : ℕ) (frag : Text) :
    List Text → TrieData M × Except Failure ℕ
  | [] =>
      match t.node? parent with
      | none => (t, .error .undefined)
      | some p =>
          match t.getOrNewNode env parent p frag with
          | (t', .error e) => (t', .error e)
          | (t', .ok c) => (t'.modify c fun n => { n with endpoint := true }, .ok c)
  | next :: frags =>
      match t.node? parent with
      | none => (t, .error .undefined)
      | some p =>
          match t.getOrNewNode env parent p frag with
          | (t', .error e) => (t', .error e)
          | (t', .ok c) => t'.insertNode env c next frags

/-- `Trie::add_node`. -/
def TrieData.addNode (env : Env) (t : TrieData M) (pattern : Text) :
    TrieData M × Except Failure ℕ :=
  let pattern := trimPathSpaces pattern
  if ascii "//" <:+: pattern then
    (t, .error (.exception (ascii "`//` is not allowed: " ++ pattern)))
  else
    match stringSplit slash (trimPrefixSlash pattern) with
    | [] => (t, .error .undefined)
    | frag :: frags =>
        match t.insertNode env 0 frag frags with
        | (t', .error e) => (t', .error e)
        | (t', .ok c) =>
            (t'.modify c fun n => if n.pattern = [] then { n with pattern } else n, .ok c)

/-! ### The invariant -/

/-- **The links of a node**: a link leads to a node whose parent it hangs on, the keys of the
children are different names, none of them the name of a parameter, and no two links are
equal. Its middlewares say where they are registered. -/
structure TrieData.Linked (t : TrieData M) (i : ℕ) (n : Node M) : Prop where
  child : ∀ h ∈ n.children, ∃ c, t.node? h.val = some c ∧ c.parent = some i
  colon : ∀ c, n.colonChild = some c → ∃ d, t.node? c = some d ∧ d.parent = some i
  keys : n.children.Pairwise fun a b => sameName a.key b.key = false
  literal : ∀ h ∈ n.children, h.key.head? ≠ some 58
  links : (n.colonChild.toList ++ n.children.map NodeHolder.val).Nodup
  owner : ∀ a ∈ n.middlewares, a.node = i

/-- **What every trie keeps.** The nodes are a tree by their `parent` pointers, which lead to
the front, every node is linked as it should be, and ids are made as the constructor of `Node`
makes them. -/
structure TrieData.Ok (t : TrieData M) : Prop where
  counter : t.nodes.length = t.counter + 1
  root : ∃ r, t.node? 0 = some r ∧ r.parent = none
  parent : ∀ {i n}, t.node? i = some n → i ≠ 0 → ∃ p, n.parent = some p ∧ p < i
  linked : ∀ {i n}, t.node? i = some n → t.Linked i n
  ids : ∀ {i n}, t.node? i = some n → ∃ r : Text, r.length = 10 ∧
    n.id = if i = 0 then ascii "root_" ++ r else ascii "node_" ++ r ++ ascii "_" ++ decimal i

/-- **A node only grows**: what identifies it stays, links and middlewares are added behind
those that are there, and the handlers of a method are set once. -/
structure Node.Grows (n n' : Node M) : Prop where
  id : n'.id = n.id
  parent : n'.parent = n.parent
  name : n'.name = n.name
  regex : n'.regex = n.regex
  children : n.children <+: n'.children
  colonChild : ∀ c, n.colonChild = some c → n'.colonChild = some c
  endpoint : n.endpoint = true → n'.endpoint = true
  middlewares : n.middlewares <+: n'.middlewares
  handlers : ∀ method hs, n.handlers.lookup method = some hs → hs ≠ [] →
    n'.handlers.lookup method = some hs

/-- **A trie only grows.** -/
structure TrieData.Grows (t t' : TrieData M) : Prop where
  strictRoute : t'.strictRoute = t.strictRoute
  maxFallbackDepth : t'.maxFallbackDepth = t.maxFallbackDepth
  node : ∀ {i n}, t.node? i = some n → ∃ n', t'.node? i = some n' ∧ n.Grows n'

/-- **The entry of a pattern's segment**: the child that the segment stands for, once it is
there. -/
def TrieData.Entry (t : TrieData M) (parent : ℕ) (segment : Text) (c : ℕ) : Prop :=
  ∃ p, t.node? parent = some p ∧
    ((fragOf segment).head? ≠ some 58 ∧ p.findChild (fragOf segment) = some c ∨
      (fragOf segment).head? = some 58 ∧ p.colonChild = some c ∧ ∃ name regex child,
        colonParts (fragOf segment) = .ok (name, regex) ∧ t.node? c = some child ∧
          checkColonChild name regex child = true)

/-- The segments of a pattern lead from a node to another one. -/
inductive TrieData.Entries (t : TrieData M) : ℕ → List Text → ℕ → Prop
  | nil (p : ℕ) : t.Entries p [] p
  | cons {p c e : ℕ} {segment : Text} {segments : List Text} (hentry : t.Entry p segment c)
      (hrest : t.Entries c segments e) : t.Entries p (segment :: segments) e

/-- **What an insertion leaves**, whether it throws or not, and what holds of the node that it
returns. -/
structure TrieData.Inserts (t : TrieData M) (r : TrieData M × Except Failure ℕ)
    (Q : TrieData M → ℕ → Prop) : Prop where
  ok : r.1.Ok
  grows : t.Grows r.1
  defined : r.2 ≠ .error .undefined
  result : ∀ c, r.2 = .ok c → Q r.1 c

section Lemmas

variable {t t' : TrieData M} {n : Node M} {f : Node M → Node M} {i p c : ℕ} {key : Text}

/-- The nodes after one is changed. -/
theorem node?_modify :
    (t.modify p f).node? i = (t.node? i).map fun n => if p = i then f n else n := by
  rw [TrieData.node?, TrieData.modify, List.getElem?_modify]
  rfl

/-- The nodes after one is added. -/
theorem node?_push :
    (t.push n).node? i = if i = t.nodes.length then some n else t.node? i := by
  rw [TrieData.node?, TrieData.push]
  split_ifs with h
  · rw [h, List.getElem?_concat_length]
  · rcases Nat.lt_or_gt_of_ne h with hlt | hgt
    · exact List.getElem?_append_left hlt
    · rw [TrieData.node?, List.getElem?_eq_none (by simp; omega), List.getElem?_eq_none hgt.le]

theorem lt_of_node? (h : t.node? i = some n) : i < t.nodes.length :=
  (List.getElem?_eq_some_iff.mp h).1

/-- The nodes that were there, after one more and a write. -/
theorem node?_pushed (hn : t.node? i = some n) (fresh : Node M) :
    ((t.push fresh).modify p f).node? i = some (if p = i then f n else n) := by
  rw [node?_modify, node?_push, if_neg (lt_of_node? hn).ne, hn, Option.map_some]

/-- The nodes after one more and a write: the new one, and those that were there. -/
theorem node?_pushed_cases {fresh m : Node M} (hn : t.node? p = some n)
    (hm : ((t.push fresh).modify p f).node? i = some m) :
    i = t.nodes.length ∧ m = fresh ∨ ∃ k, t.node? i = some k ∧ m = if p = i then f k else k := by
  cases hk : t.node? i with
  | some k =>
      rw [node?_pushed hk] at hm
      exact .inr ⟨k, rfl, (Option.some.inj hm).symm⟩
  | none =>
      have hpi : p ≠ i := by
        rintro rfl
        rw [hn] at hk
        cases hk
      simp only [node?_modify, node?_push, if_neg hpi, Option.map_id_fun', id_eq, hk] at hm
      split_ifs at hm with hi
      exact .inl ⟨hi, (Option.some.inj hm).symm⟩

theorem node?_length : t.node? t.nodes.length = none :=
  List.getElem?_eq_none (Nat.le_refl _)

theorem length_modify : (t.modify p f).nodes.length = t.nodes.length :=
  List.length_modify ..

theorem Node.Grows.refl (n : Node M) : n.Grows n :=
  ⟨rfl, rfl, rfl, rfl, List.prefix_rfl, fun _ h => h, fun h => h, List.prefix_rfl,
    fun _ _ h _ => h⟩

/-- A node that grows twice has grown. -/
theorem Node.Grows.trans {n₁ n₂ n₃ : Node M} (h : n₁.Grows n₂) (h' : n₂.Grows n₃) :
    n₁.Grows n₃ where
  id := h'.id.trans h.id
  parent := h'.parent.trans h.parent
  name := h'.name.trans h.name
  regex := h'.regex.trans h.regex
  children := h.children.trans h'.children
  colonChild c hc := h'.colonChild c (h.colonChild c hc)
  endpoint he := h'.endpoint (h.endpoint he)
  middlewares := h.middlewares.trans h'.middlewares
  handlers method hs hh hne := h'.handlers method hs (h.handlers method hs hh hne) hne

theorem TrieData.Grows.refl (t : TrieData M) : t.Grows t :=
  ⟨rfl, rfl, fun hn => ⟨_, hn, .refl _⟩⟩

/-- A trie that grows twice has grown. -/
theorem TrieData.Grows.trans {t₁ t₂ t₃ : TrieData M} (h : t₁.Grows t₂) (h' : t₂.Grows t₃) :
    t₁.Grows t₃ where
  strictRoute := h'.strictRoute.trans h.strictRoute
  maxFallbackDepth := h'.maxFallbackDepth.trans h.maxFallbackDepth
  node hn := by
    obtain ⟨n₂, hn₂, hg⟩ := h.node hn
    obtain ⟨n₃, hn₃, hg'⟩ := h'.node hn₂
    exact ⟨n₃, hn₃, hg.trans hg'⟩

/-- A trie grows where a node does. -/
theorem grows_modify (hf : ∀ n, t.node? p = some n → n.Grows (f n)) : t.Grows (t.modify p f) where
  strictRoute := rfl
  maxFallbackDepth := rfl
  node := by
    intro i n hn
    rw [node?_modify, hn, Option.map_some]
    refine ⟨_, rfl, ?_⟩
    split_ifs with hp
    · exact hf n (hp ▸ hn)
    · exact .refl n

/-- A trie grows by a node. -/
theorem grows_push : t.Grows (t.push n) where
  strictRoute := rfl
  maxFallbackDepth := rfl
  node := by
    intro i m hm
    refine ⟨m, ?_, .refl m⟩
    rw [node?_push, if_neg (lt_of_node? hm).ne, hm]

/-- Links stay good where the nodes they lead to keep their parents. -/
theorem TrieData.Linked.mono (h : t.Linked i n)
    (hparents : ∀ j c, t.node? j = some c → ∃ c', t'.node? j = some c' ∧ c'.parent = c.parent) :
    t'.Linked i n where
  child l hl := by
    obtain ⟨c, hc, hparent⟩ := h.child l hl
    obtain ⟨c', hc', heq⟩ := hparents _ c hc
    exact ⟨c', hc', heq.trans hparent⟩
  colon c hc := by
    obtain ⟨d, hd, hparent⟩ := h.colon c hc
    obtain ⟨d', hd', heq⟩ := hparents _ d hd
    exact ⟨d', hd', heq.trans hparent⟩
  keys := h.keys
  literal := h.literal
  links := h.links
  owner := h.owner

/-- What was linked stays linked. -/
theorem TrieData.Grows.linked (h : t.Grows t') (hl : t.Linked i n) : t'.Linked i n := by
  refine hl.mono fun j c hc => ?_
  obtain ⟨c', hc', hg⟩ := h.node hc
  exact ⟨c', hc', hg.parent⟩

/-- A write that lets the node grow and leaves it well linked keeps the invariant. -/
theorem TrieData.Ok.modify (h : t.Ok) (hgrows : ∀ n, t.node? p = some n → n.Grows (f n))
    (hlinked : ∀ n, t.node? p = some n → t.Linked p (f n)) : (t.modify p f).Ok := by
  have hg : t.Grows (t.modify p f) := grows_modify hgrows
  -- every node of the new trie is a node of the old one that has grown
  have hold : ∀ {i m}, (t.modify p f).node? i = some m →
      ∃ n, t.node? i = some n ∧ n.Grows m ∧ t.Linked i m := by
    intro i m hm
    rw [node?_modify, Option.map_eq_some_iff] at hm
    obtain ⟨n, hn, rfl⟩ := hm
    refine ⟨n, hn, ?_⟩
    split_ifs with hp
    · subst hp
      exact ⟨hgrows n hn, hlinked n hn⟩
    · exact ⟨.refl n, h.linked hn⟩
  refine ⟨?_, ?_, ?_, ?_, ?_⟩
  · rw [length_modify]
    exact h.counter
  · obtain ⟨r, hr, hparent⟩ := h.root
    obtain ⟨r', hr', hgrow⟩ := hg.node hr
    exact ⟨r', hr', hgrow.parent.trans hparent⟩
  · intro i m hm hi
    obtain ⟨n, hn, hgrow, -⟩ := hold hm
    obtain ⟨q, hq, hlt⟩ := h.parent hn hi
    exact ⟨q, hgrow.parent.trans hq, hlt⟩
  · intro i m hm
    obtain ⟨n, -, -, hl⟩ := hold hm
    exact hg.linked hl
  · intro i m hm
    obtain ⟨n, hn, hgrow, -⟩ := hold hm
    obtain ⟨r, hr, hid⟩ := h.ids hn
    exact ⟨r, hr, hgrow.id.trans hid⟩

/-- A new node without links keeps the invariant, if its parent and its id are right. -/
theorem TrieData.Ok.push (h : t.Ok) (hp : p < t.nodes.length) (hparent : n.parent = some p)
    (hchildren : n.children = []) (hcolon : n.colonChild = none) (hactions : n.middlewares = [])
    (hid : ∃ r : Text, r.length = 10 ∧
      n.id = ascii "node_" ++ r ++ ascii "_" ++ decimal t.nodes.length) : (t.push n).Ok := by
  have hpos : t.nodes.length ≠ 0 := by omega
  have hnew : t.Linked t.nodes.length n :=
    ⟨by simp [hchildren], by simp [hcolon], by simp [hchildren], by simp [hchildren],
      by simp [hchildren, hcolon], by simp [hactions]⟩
  refine ⟨?_, ?_, ?_, ?_, ?_⟩
  · simp [TrieData.push, h.counter]
  · obtain ⟨r, hr, hnone⟩ := h.root
    refine ⟨r, ?_, hnone⟩
    rw [node?_push, if_neg (lt_of_node? hr).ne, hr]
  · intro i m hm hi
    rw [node?_push] at hm
    split_ifs at hm with heq
    · obtain rfl := Option.some.inj hm
      exact ⟨p, hparent, by omega⟩
    · exact h.parent hm hi
  · intro i m hm
    rw [node?_push] at hm
    split_ifs at hm with heq
    · obtain rfl := Option.some.inj hm
      rw [heq]
      exact grows_push.linked hnew
    · exact grows_push.linked (h.linked hm)
  · intro i m hm
    rw [node?_push] at hm
    split_ifs at hm with heq
    · obtain rfl := Option.some.inj hm
      obtain ⟨r, hr, hid⟩ := hid
      refine ⟨r, hr, ?_⟩
      rw [heq, if_neg hpos]
      exact hid
    · exact h.ids hm

/-- No key of the children is the name that was looked for in vain. -/
theorem Node.findChild_eq_none_iff :
    n.findChild key = none ↔ ∀ h ∈ n.children, sameName key h.key = false := by
  rw [Node.findChild, Option.map_eq_none_iff, List.find?_eq_none]
  simp

theorem sameName_comm (a b : Text) : sameName a b = sameName b a := Bool.beq_comm

/-- **Hanging on a literal child.** -/
theorem TrieData.Ok.addChild {d : Node M} (h : t.Ok) (hn : t.node? p = some n)
    (hc : t.node? c = some d) (hparent : d.parent = some p) (hkey : n.findChild key = none)
    (hliteral : key.head? ≠ some 58)
    (hfresh : ∀ i m, t.node? i = some m → m.colonChild ≠ some c ∧ c ∉ m.children.map (·.val)) :
    (t.addChild p key c).Ok := by
  have hself : ∀ m, t.node? p = some m → m = n := fun m hm => Option.some.inj (hm.symm.trans hn)
  refine h.modify ?_ ?_
  · intro m _
    exact ⟨rfl, rfl, rfl, rfl, List.prefix_append .., fun _ h => h, fun h => h, List.prefix_rfl,
      fun _ _ h _ => h⟩
  · intro m hm
    obtain rfl := hself m hm
    have hl := h.linked hm
    refine ⟨?_, hl.colon, ?_, ?_, ?_, hl.owner⟩
    · intro l hmem
      rcases List.mem_append.mp hmem with hmem | hmem
      · exact hl.child l hmem
      · obtain rfl := List.mem_singleton.mp hmem
        exact ⟨d, hc, hparent⟩
    · refine List.pairwise_append.mpr ⟨hl.keys, List.pairwise_singleton .., ?_⟩
      intro a ha b hb
      obtain rfl := List.mem_singleton.mp hb
      rw [sameName_comm]
      exact Node.findChild_eq_none_iff.mp hkey a ha
    · intro l hmem
      rcases List.mem_append.mp hmem with hmem | hmem
      · exact hl.literal l hmem
      · obtain rfl := List.mem_singleton.mp hmem
        exact hliteral
    · have hdisjoint : (m.colonChild.toList ++ m.children.map NodeHolder.val).Disjoint [c] := by
        rw [List.disjoint_singleton, List.mem_append, Option.mem_toList, not_or]
        exact hfresh p m hm
      rw [List.map_append, ← List.append_assoc]
      exact hl.links.append (List.nodup_singleton _) hdisjoint

/-- **Hanging on a parameter child**, where there is none yet. -/
theorem TrieData.Ok.setColonChild {d : Node M} (h : t.Ok) (hn : t.node? p = some n)
    (hc : t.node? c = some d) (hparent : d.parent = some p) (hcolon : n.colonChild = none)
    (hfresh : ∀ i m, t.node? i = some m → m.colonChild ≠ some c ∧ c ∉ m.children.map (·.val)) :
    (t.setColonChild p c).Ok := by
  have hself : ∀ m, t.node? p = some m → m = n := fun m hm => Option.some.inj (hm.symm.trans hn)
  refine h.modify ?_ ?_
  · intro m hm
    obtain rfl := hself m hm
    exact ⟨rfl, rfl, rfl, rfl, List.prefix_rfl, fun c hc => by simp [hcolon] at hc, fun h => h,
      List.prefix_rfl, fun _ _ h _ => h⟩
  · intro m hm
    obtain rfl := hself m hm
    have hl := h.linked hm
    refine ⟨hl.child, ?_, hl.keys, hl.literal, ?_, hl.owner⟩
    · intro c' hc'
      obtain rfl := Option.some.inj hc'
      exact ⟨d, hc, hparent⟩
    · have hlinks := hl.links
      rw [hcolon] at hlinks
      exact List.nodup_cons.mpr ⟨(hfresh p m hm).2, hlinks⟩

/-- No link leads to a node that is not there yet. -/
theorem TrieData.Ok.not_linked (h : t.Ok) {m : Node M} (hm : t.node? i = some m) :
    m.colonChild ≠ some t.nodes.length ∧ t.nodes.length ∉ m.children.map (·.val) := by
  have hl := h.linked hm
  constructor
  · intro hcolon
    obtain ⟨d, hd, -⟩ := hl.colon _ hcolon
    rw [node?_length] at hd
    cases hd
  · intro hmem
    obtain ⟨l, hl', hval⟩ := List.mem_map.mp hmem
    obtain ⟨d, hd, -⟩ := hl.child l hl'
    rw [hval, node?_length] at hd
    cases hd

/-- Nothing leads to a node that has just been added. -/
theorem not_linked_push (h : t.Ok) (hchildren : n.children = []) (hcolon : n.colonChild = none)
    (i : ℕ) (m : Node M) (hm : (t.push n).node? i = some m) :
    m.colonChild ≠ some t.nodes.length ∧ t.nodes.length ∉ m.children.map (·.val) := by
  rw [node?_push] at hm
  split_ifs at hm with heq
  · obtain rfl := Option.some.inj hm
    simp [hchildren, hcolon]
  · exact h.not_linked hm

/-- A name that is the same as one with a colon in front has it too. -/
theorem head?_eq_of_sameName {a b : Text} (h : sameName a b = true) (ha : a.head? = some 58) :
    b.head? = some 58 := by
  cases a with
  | nil => cases ha
  | cons x a =>
      obtain rfl : x = 58 := Option.some.inj ha
      cases b with
      | nil => simp [sameName, cstr] at h
      | cons y b =>
          by_cases hy : y = 0
          · simp [sameName, cstr, hy] at h
          · have heq : (58 : UInt8) = y := by
              simp [sameName, cstr, hy] at h
              exact h.1
            rw [heq]
            rfl

/-- A child that was found is found in the grown node. -/
theorem findChild_grows {n' : Node M} (h : n.Grows n') (hfind : n.findChild key = some c) :
    n'.findChild key = some c := by
  obtain ⟨more, hmore⟩ := h.children
  rw [Node.findChild, Option.map_eq_some_iff] at hfind ⊢
  obtain ⟨l, hl, hval⟩ := hfind
  refine ⟨l, ?_, hval⟩
  rw [← hmore, List.find?_append, hl, Option.some_or]

/-- The check of a parameter says the same of the grown node. -/
theorem checkColonChild_grows {n' : Node M} (h : n.Grows n') (name regex : Text) :
    checkColonChild name regex n' = checkColonChild name regex n := by
  rw [checkColonChild, checkColonChild, h.name, h.regex]

/-- An entry stays where it is. -/
theorem TrieData.Entry.grows {segment : Text} (h : t.Entry p segment c) (hg : t.Grows t') :
    t'.Entry p segment c := by
  obtain ⟨n, hn, hentry⟩ := h
  obtain ⟨n', hn', hgrow⟩ := hg.node hn
  refine ⟨n', hn', ?_⟩
  rcases hentry with ⟨hhead, hfind⟩ | ⟨hhead, hcolon, name, regex, child, hparts, hchild, hcheck⟩
  · exact .inl ⟨hhead, findChild_grows hgrow hfind⟩
  · obtain ⟨child', hchild', hgrow'⟩ := hg.node hchild
    refine .inr ⟨hhead, hgrow.colonChild c hcolon, name, regex, child', hparts, hchild', ?_⟩
    rw [checkColonChild_grows hgrow', hcheck]

/-- A segment has one entry. -/
theorem TrieData.Entry.eq {segment : Text} {c' : ℕ} (h : t.Entry p segment c)
    (h' : t.Entry p segment c') : c = c' := by
  obtain ⟨n, hn, hentry⟩ := h
  obtain ⟨n', hn', hentry'⟩ := h'
  obtain rfl := Option.some.inj (hn.symm.trans hn')
  rcases hentry with ⟨hhead, hfind⟩ | ⟨hhead, hcolon, -⟩
  · rcases hentry' with ⟨-, hfind'⟩ | ⟨hhead', -⟩
    · exact Option.some.inj (hfind.symm.trans hfind')
    · exact absurd hhead' hhead
  · rcases hentry' with ⟨hhead', -⟩ | ⟨-, hcolon', -⟩
    · exact absurd hhead hhead'
    · exact Option.some.inj (hcolon.symm.trans hcolon')

/-- A path of literal nodes stays one in the grown trie. -/
theorem TrieData.Entries.grows {segments : List Text} (h : t.Entries p segments c)
    (hg : t.Grows t') : t'.Entries p segments c := by
  induction h with
  | nil p => exact .nil p
  | cons hentry _ ih => exact .cons (hentry.grows hg) ih

/-- Segments lead to one node. -/
theorem TrieData.Entries.eq {segments : List Text} {c' : ℕ} (h : t.Entries p segments c)
    (h' : t.Entries p segments c') : c = c' := by
  induction h with
  | nil p =>
      cases h'
      rfl
  | cons hentry _ ih =>
      cases h' with
      | cons hentry' hrest' =>
          obtain rfl := hentry.eq hentry'
          exact ih hrest'

/-- The entries of a longer pattern go through those of its beginning. -/
theorem TrieData.Entries.append_iff {front back : List Text} :
    t.Entries p (front ++ back) c ↔ ∃ e, t.Entries p front e ∧ t.Entries e back c := by
  induction front generalizing p with
  | nil =>
      constructor
      · intro h
        exact ⟨p, .nil p, h⟩
      · rintro ⟨e, hfront, hback⟩
        cases hfront
        exact hback
  | cons segment front ih =>
      constructor
      · rintro (_ | ⟨hentry, hrest⟩)
        obtain ⟨e, hfront, hback⟩ := ih.mp hrest
        exact ⟨e, .cons hentry hfront, hback⟩
      · rintro ⟨e, hfront, hback⟩
        cases hfront with
        | cons hentry hrest => exact .cons hentry (ih.mpr ⟨e, hrest, hback⟩)

variable {env : Env} {Q : TrieData M → ℕ → Prop}

/-- An insertion that goes through. -/
theorem inserts_ok (hok : t'.Ok) (hg : t.Grows t') (hQ : Q t' c) : t.Inserts (t', .ok c) Q :=
  ⟨hok, hg, by simp, by rintro _ ⟨⟩; exact hQ⟩

/-- An insertion that is refused. -/
theorem inserts_error {e : Failure} (hok : t'.Ok) (hg : t.Grows t') (he : e ≠ .undefined) :
    t.Inserts (t', .error e) Q :=
  ⟨hok, hg, by simpa using he, by simp⟩

/-- The new node of `_get_or_new_node`, with the name and the constraint that it is given. -/
def freshNode (M : Type) (env : Env) (counter parent : ℕ) (name regex : Text) : Node M :=
  { id := env.nodeId (counter + 1), parent := some parent, name, regex }

/-- A fresh node below an existing one keeps the trie well formed. -/
theorem push_freshNode_ok (h : t.Ok) (hn : t.node? p = some n) (name regex : Text) :
    (t.push (freshNode M env t.counter p name regex)).Ok := by
  refine h.push (lt_of_node? hn) rfl rfl rfl rfl ⟨env.randomStr (t.counter + 1), ?_, ?_⟩
  · exact env.length_randomStr _
  · rw [h.counter]
    rfl

/-- A new literal child. -/
theorem addChild_inserts (h : t.Ok) (hn : t.node? p = some n) {segment : Text}
    (hhead : (fragOf segment).head? ≠ some 58) (hfind : n.findChild (fragOf segment) = none) :
    t.Inserts (((t.push (freshNode M env t.counter p [] [])).addChild p (fragOf segment)
      t.nodes.length), .ok t.nodes.length) fun t' c => t'.Entry p segment c := by
  set fresh : Node M := freshNode M env t.counter p [] [] with hfresh
  have hold : (t.push fresh).node? p = some n := by
    rw [node?_push, if_neg (lt_of_node? hn).ne, hn]
  have hnew : (t.push fresh).node? t.nodes.length = some fresh := by rw [node?_push, if_pos rfl]
  have hok := (push_freshNode_ok h hn [] []).addChild hold hnew rfl hfind hhead
    (not_linked_push h rfl rfl)
  have hparent : ((t.push fresh).addChild p (fragOf segment) t.nodes.length).node? p =
      some { n with children := n.children ++ [⟨fragOf segment, t.nodes.length⟩] } := by
    rw [TrieData.addChild, node?_modify, hold, Option.map_some, if_pos rfl]
  refine inserts_ok hok ?_ ⟨_, hparent, .inl ⟨hhead, ?_⟩⟩
  · refine grows_push.trans (grows_modify fun m _ => ?_)
    exact ⟨rfl, rfl, rfl, rfl, List.prefix_append .., fun _ h => h, fun h => h, List.prefix_rfl,
      fun _ _ h _ => h⟩
  · -- the children that were there have other names
    have hnone : n.children.find? (fun h => sameName (fragOf segment) h.key) = none :=
      Option.map_eq_none_iff.mp hfind
    rw [Node.findChild, List.find?_append, hnone, Option.none_or]
    simp [sameName]

/-- A parameter child, a new one or the one that is there. -/
theorem newColonChild_inserts (h : t.Ok) (hn : t.node? p = some n) {segment name regex : Text}
    (hhead : (fragOf segment).head? = some 58)
    (hparts : colonParts (fragOf segment) = .ok (name, regex)) :
    t.Inserts (t.newColonChild env p n (freshNode M env t.counter p [] []) name regex)
      fun t' c => t'.Entry p segment c := by
  set fresh : Node M := freshNode M env t.counter p name regex with hfresh
  have hok : (t.push fresh).Ok := push_freshNode_ok h hn name regex
  have hold : (t.push fresh).node? p = some n := by
    rw [node?_push, if_neg (lt_of_node? hn).ne, hn]
  have hnew : (t.push fresh).node? t.nodes.length = some fresh := by rw [node?_push, if_pos rfl]
  rw [TrieData.newColonChild]
  split
  · exact inserts_error (push_freshNode_ok h hn [] regex) grows_push (by simp [TrieData.illegal])
  · dsimp only
    cases hcolon : n.colonChild with
    | none =>
        have hset := hok.setColonChild hold hnew rfl hcolon (not_linked_push h rfl rfl)
        have hg : (t.push fresh).Grows ((t.push fresh).setColonChild p t.nodes.length) := by
          refine grows_modify fun m hm => ?_
          obtain rfl := Option.some.inj (hold.symm.trans hm)
          exact ⟨rfl, rfl, rfl, rfl, List.prefix_rfl, fun c hc => by simp [hcolon] at hc,
            fun h => h, List.prefix_rfl, fun _ _ h _ => h⟩
        obtain ⟨fresh', hfresh', hgrow⟩ := hg.node hnew
        have hparent : ((t.push fresh).setColonChild p t.nodes.length).node? p =
            some { n with colonChild := some t.nodes.length } := by
          rw [TrieData.setColonChild, node?_modify, hold, Option.map_some, if_pos rfl]
        refine inserts_ok hset (grows_push.trans hg) ⟨_, hparent,
          .inr ⟨hhead, rfl, name, regex, fresh', hparts, hfresh', ?_⟩⟩
        rw [checkColonChild_grows hgrow]
        simp [checkColonChild, sameName, hfresh, freshNode]
    | some c =>
        obtain ⟨child, hchild, -⟩ := (h.linked hn).colon c hcolon
        dsimp only
        rw [hchild]
        dsimp only
        split
        · rename_i hcheck
          refine inserts_ok hok grows_push ⟨n, hold, .inr ⟨hhead, hcolon, name, regex, child,
            hparts, ?_, hcheck⟩⟩
          rw [node?_push, if_neg (lt_of_node? hchild).ne, hchild]
        · exact inserts_error hok grows_push (by simp)

/-- No child has the name of a parameter. -/
theorem head?_of_findChild (h : t.Ok) (hn : t.node? p = some n)
    (hfind : n.findChild key = some c) : key.head? ≠ some 58 := by
  intro hhead
  rw [Node.findChild, Option.map_eq_some_iff] at hfind
  obtain ⟨l, hl, -⟩ := hfind
  have hsame := List.find?_some hl
  exact (h.linked hn).literal l (List.mem_of_find?_eq_some hl) (head?_eq_of_sameName hsame hhead)

/-- **One segment**: what `_get_or_new_node` returns is the segment's entry. -/
theorem getOrNewNode_inserts (h : t.Ok) (hn : t.node? p = some n) (segment : Text) :
    t.Inserts (t.getOrNewNode env p n segment) fun t' c => t'.Entry p segment c := by
  rw [TrieData.getOrNewNode]
  cases hfind : n.findChild (fragOf segment) with
  | some c =>
      exact inserts_ok h (.refl t) ⟨n, hn, .inl ⟨head?_of_findChild h hn hfind, hfind⟩⟩
  | none =>
      dsimp only
      split_ifs with hempty hhead hcheck
      · refine addChild_inserts h hn ?_ hfind
        rw [hempty]
        simp
      · cases hparts : colonParts (fragOf segment) with
        | error e =>
            refine inserts_error (push_freshNode_ok h hn [] []) grows_push ?_
            rintro rfl
            rw [colonParts] at hparts
            dsimp only at hparts
            split at hparts
            · cases hparts
            · split_ifs at hparts
              simp at hparts
        | ok parts => exact newColonChild_inserts h hn hhead hparts
      · exact inserts_error (push_freshNode_ok h hn [] []) grows_push (by simp [TrieData.illegal])
      · exact addChild_inserts h hn hhead hfind

/-- A child that is found exists, and has this parent. -/
theorem TrieData.Ok.findChild (h : t.Ok) (hn : t.node? p = some n)
    (hfind : n.findChild key = some c) : ∃ d, t.node? c = some d ∧ d.parent = some p := by
  rw [Node.findChild, Option.map_eq_some_iff] at hfind
  obtain ⟨l, hl, rfl⟩ := hfind
  exact (h.linked hn).child l (List.mem_of_find?_eq_some hl)

/-- An entry is a child. -/
theorem TrieData.Entry.child {segment : Text} (hentry : t.Entry p segment c) (h : t.Ok) :
    ∃ d, t.node? c = some d ∧ d.parent = some p := by
  obtain ⟨n, hn, hentry⟩ := hentry
  rcases hentry with ⟨-, hfind⟩ | ⟨-, hcolon, -⟩
  · exact h.findChild hn hfind
  · exact (h.linked hn).colon c hcolon

/-- A write that changes neither a link nor a name nor a middleware. -/
theorem modify_ok (h : t.Ok) (hgrows : ∀ n : Node M, n.Grows (f n))
    (hlinks : ∀ n, (f n).children = n.children ∧ (f n).colonChild = n.colonChild ∧
      (f n).middlewares = n.middlewares) :
    (t.modify p f).Ok := by
  refine h.modify (fun n _ => hgrows n) fun n hn => ?_
  have hl := h.linked hn
  obtain ⟨hchildren, hcolon, hactions⟩ := hlinks n
  refine ⟨?_, ?_, ?_, ?_, ?_, ?_⟩
  · rw [hchildren]
    exact hl.child
  · rw [hcolon]
    exact hl.colon
  · rw [hchildren]
    exact hl.keys
  · rw [hchildren]
    exact hl.literal
  · rw [hchildren, hcolon]
    exact hl.links
  · rw [hactions]
    exact hl.owner

theorem endpoint_grows (n : Node M) : n.Grows { n with endpoint := true } :=
  ⟨rfl, rfl, rfl, rfl, List.prefix_rfl, fun _ h => h, fun _ => rfl, List.prefix_rfl,
    fun _ _ h _ => h⟩

/-- **All segments**: `_insert_node` leads along their entries to an endpoint. -/
theorem insertNode_inserts (h : t.Ok) (hn : t.node? p = some n) (frag : Text)
    (frags : List Text) :
    t.Inserts (t.insertNode env p frag frags) fun t' c => t'.Entries p (frag :: frags) c ∧
      ∃ e, t'.node? c = some e ∧ e.endpoint = true := by
  induction frags generalizing t p n frag with
  | nil =>
      have hstep : t.Inserts (t.getOrNewNode env p n frag) _ := getOrNewNode_inserts h hn frag
      rw [TrieData.insertNode, hn]
      dsimp only
      split
      · rename_i t' e heq
        rw [heq] at hstep
        exact inserts_error hstep.ok hstep.grows fun he => hstep.defined (by rw [he])
      · rename_i t' c heq
        rw [heq] at hstep
        have hentry := hstep.result c rfl
        have hg : t'.Grows (t'.modify c fun n => { n with endpoint := true }) :=
          grows_modify fun n _ => endpoint_grows n
        obtain ⟨d, hd, -⟩ := hentry.child hstep.ok
        refine inserts_ok (modify_ok hstep.ok endpoint_grows fun n => ⟨rfl, rfl, rfl⟩)
          (hstep.grows.trans hg) ⟨.cons (hentry.grows hg) (.nil c), { d with endpoint := true }, ?_,
            rfl⟩
        rw [node?_modify, hd, Option.map_some, if_pos rfl]
  | cons next frags ih =>
      have hstep : t.Inserts (t.getOrNewNode env p n frag) _ := getOrNewNode_inserts h hn frag
      rw [TrieData.insertNode, hn]
      dsimp only
      split
      · rename_i t' e heq
        rw [heq] at hstep
        exact inserts_error hstep.ok hstep.grows fun he => hstep.defined (by rw [he])
      · rename_i t' c heq
        rw [heq] at hstep
        have hentry := hstep.result c rfl
        obtain ⟨m, hm, -⟩ := hentry.child hstep.ok
        have hrest := ih hstep.ok hm next
        refine ⟨hrest.ok, hstep.grows.trans hrest.grows, hrest.defined, fun e he => ?_⟩
        obtain ⟨hentries, hend⟩ := hrest.result e he
        exact ⟨.cons (hentry.grows hrest.grows) hentries, hend⟩

/-- A text has at least one segment. -/
theorem stringSplit_ne_nil (delim : UInt8) (s : Text) : stringSplit delim s ≠ [] := by
  cases s with
  | nil => simp [stringSplit]
  | cons c s =>
      rw [stringSplit]
      split_ifs with hc
      · simp
      · split <;> simp

/-- `string_split` of two texts with a delimiter between them. -/
theorem stringSplit_append (q w : Text) : stringSplit slash (q ++ slash :: w) =
    stringSplit slash q ++ stringSplit slash w := by
  induction q with
  | nil =>
      have hempty : stringSplit slash (slash :: w) = [] :: stringSplit slash w := by
        rw [stringSplit, if_pos rfl]
      exact hempty
  | cons a q ih =>
      rw [List.cons_append, stringSplit, stringSplit]
      split_ifs with ha
      · rw [ih]
        rfl
      · rw [ih]
        cases hq : stringSplit slash q with
        | nil => exact absurd hq (stringSplit_ne_nil _ _)
        | cons piece pieces => rfl

/-- A segment has characters of the text only. -/
theorem subset_of_mem_stringSplit {d : UInt8} {w s : Text} (h : s ∈ stringSplit d w) : s ⊆ w := by
  induction w generalizing s with
  | nil =>
      rw [stringSplit, List.mem_singleton] at h
      rw [h]
      exact List.Subset.refl _
  | cons c w ih =>
      rw [stringSplit] at h
      split_ifs at h with hc
      · rcases List.mem_cons.mp h with rfl | h
        · exact List.nil_subset _
        · exact List.subset_cons_of_subset c (ih h)
      · cases hsplit : stringSplit d w with
        | nil => exact absurd hsplit (stringSplit_ne_nil d w)
        | cons piece pieces =>
            rw [hsplit] at h ih
            rcases List.mem_cons.mp h with rfl | h
            · exact List.cons_subset_cons c (ih (List.mem_cons_self ..))
            · exact List.subset_cons_of_subset c (ih (List.mem_cons_of_mem _ h))

/-- A text without a delimiter is one piece. -/
theorem stringSplit_of_not_mem {d : UInt8} {w : Text} (h : d ∉ w) : stringSplit d w = [w] := by
  induction w with
  | nil => rfl
  | cons c w ih =>
      rw [List.mem_cons, not_or] at h
      rw [stringSplit, if_neg (Ne.symm h.1), ih h.2]

/-- The pieces have no delimiter. -/
theorem not_mem_of_mem_stringSplit {d : UInt8} {w s : Text} (h : s ∈ stringSplit d w) :
    d ∉ s := by
  induction w generalizing s with
  | nil =>
      rw [stringSplit, List.mem_singleton] at h
      rw [h]
      exact List.not_mem_nil
  | cons c w ih =>
      rw [stringSplit] at h
      split_ifs at h with hc
      · rcases List.mem_cons.mp h with rfl | h
        · exact List.not_mem_nil
        · exact ih h
      · cases hsplit : stringSplit d w with
        | nil => exact absurd hsplit (stringSplit_ne_nil d w)
        | cons piece pieces =>
            rw [hsplit] at h ih
            rcases List.mem_cons.mp h with rfl | h
            · rw [List.mem_cons, not_or]
              exact ⟨fun heq => hc heq.symm, ih (List.mem_cons_self ..)⟩
            · exact ih (List.mem_cons_of_mem _ h)

theorem pattern_grows (pattern : Text) (n : Node M) :
    n.Grows (if n.pattern = [] then { n with pattern } else n) := by
  split_ifs with h
  · exact ⟨rfl, rfl, rfl, rfl, List.prefix_rfl, fun _ h => h, fun h => h, List.prefix_rfl,
      fun _ _ h _ => h⟩
  · exact .refl n

/-- The segments that `add_node` makes of a pattern. -/
def segmentsOf (pattern : Text) : List Text :=
  stringSplit slash (trimPrefixSlash (trimPathSpaces pattern))

/-- **Every insertion keeps the invariant**, whether it throws or not, and what it returns is
the endpoint that the segments of the pattern lead to. -/
theorem TrieData.Ok.addNode (h : t.Ok) (env : Env) (pattern : Text) :
    t.Inserts (t.addNode env pattern) fun t' c => t'.Entries 0 (segmentsOf pattern) c ∧
      ∃ e, t'.node? c = some e ∧ e.endpoint = true := by
  rw [TrieData.addNode]
  split_ifs with hslashes
  · exact inserts_error h (.refl t) (by simp)
  obtain ⟨r, hr, -⟩ := h.root
  rw [segmentsOf]
  cases hsplit : stringSplit slash (trimPrefixSlash (trimPathSpaces pattern)) with
  | nil => exact absurd hsplit (stringSplit_ne_nil _ _)
  | cons frag frags =>
      have hins : t.Inserts (t.insertNode env 0 frag frags) _ := insertNode_inserts h hr frag frags
      dsimp only
      split
      · rename_i t' e heq
        rw [heq] at hins
        exact inserts_error hins.ok hins.grows fun he => hins.defined (by rw [he])
      · rename_i t' c heq
        rw [heq] at hins
        obtain ⟨hentries, e, he, hend⟩ := hins.result c rfl
        have hg : t'.Grows (t'.modify c fun n =>
            if n.pattern = [] then { n with pattern := trimPathSpaces pattern } else n) :=
          grows_modify fun n _ => pattern_grows _ n
        obtain ⟨e', he', hgrow⟩ := hg.node he
        refine inserts_ok (modify_ok hins.ok (pattern_grows _) fun n => ?_)
          (hins.grows.trans hg) ⟨hentries.grows hg, e', he', hgrow.endpoint hend⟩
        split_ifs with hpattern <;> exact ⟨rfl, rfl, rfl⟩

/-- A new trie is well formed. -/
theorem new_ok (env : Env) (strictRoute : Bool) (segmentPattern : Text) (maxFallbackDepth : ℤ) :
    (TrieData.new (M := M) env strictRoute segmentPattern maxFallbackDepth).Ok := by
  have hroot : ∀ {i : ℕ} {n : Node M},
      (TrieData.new env strictRoute segmentPattern maxFallbackDepth).node? i = some n →
        i = 0 ∧ n = { id := ascii "root_" ++ env.randomStr 0, isRoot := true } := by
    intro i n hn
    cases i with
    | zero => exact ⟨rfl, (Option.some.inj hn).symm⟩
    | succ i => cases hn
  refine ⟨rfl, ⟨_, rfl, rfl⟩, ?_, ?_, ?_⟩
  · intro i n hn hi
    exact absurd (hroot hn).1 hi
  · intro i n hn
    obtain ⟨rfl, rfl⟩ := hroot hn
    exact ⟨by simp, by simp, by simp, by simp, by simp, by simp⟩
  · intro i n hn
    obtain ⟨rfl, rfl⟩ := hroot hn
    exact ⟨_, env.length_randomStr 0, rfl⟩

/-- **Ids are unique.** -/
theorem TrieData.Ok.id_injective {j : ℕ} {m : Node M} (h : t.Ok) (hn : t.node? i = some n)
    (hm : t.node? j = some m) (hid : n.id = m.id) : i = j := by
  obtain ⟨r, hr, hn⟩ := h.ids hn
  obtain ⟨r', hr', hm⟩ := h.ids hm
  rw [hn, hm] at hid
  have hroot : ∀ (a b : Text) (k : ℕ),
      ascii "root_" ++ a ≠ ascii "node_" ++ b ++ ascii "_" ++ decimal k := by
    intro a b k heq
    have := congrArg List.head? heq
    simp [ascii] at this
  split_ifs at hid with hi hj hj
  · rw [hi, hj]
  · exact absurd hid (hroot _ _ _)
  · exact absurd hid.symm (hroot _ _ _)
  · -- the random parts have one length, so that the numbers are equal
    rw [List.append_assoc, List.append_assoc, List.append_assoc, List.append_assoc] at hid
    have htail := List.append_cancel_left hid
    obtain ⟨-, htail⟩ := List.append_inj htail (hr.trans hr'.symm)
    exact decimal_injective (List.append_cancel_left htail)

end Lemmas

/-- **A trie** carries its invariant. -/
structure Trie (M : Type) extends TrieData M where
  ok : toTrieData.Ok

namespace Trie

variable (env : Env)

/-- The constructor, with the defaults of `trie.h`. -/
def new (strictRoute : Bool := true) (segmentPattern : Text := ascii "[A-Za-z0-9._~\\-]+")
    (maxFallbackDepth : ℤ := 100) : Trie M where
  toTrieData := .new env strictRoute segmentPattern maxFallbackDepth
  ok := new_ok env strictRoute segmentPattern maxFallbackDepth

/-- `add_node`. -/
def addNode (t : Trie M) (pattern : Text) : Trie M × Except Failure ℕ :=
  (⟨(t.toTrieData.addNode env pattern).1, (t.ok.addNode env pattern).ok⟩,
    (t.toTrieData.addNode env pattern).2)

/-- **An insertion returns or throws**: it follows no dangling pointer. -/
theorem addNode_defined (t : Trie M) (pattern : Text) :
    (t.addNode env pattern).2 ≠ .error .undefined :=
  (t.ok.addNode env pattern).defined

end Trie

end ArchNet.Routing

import ArchNet.Trie
import ArchNet.Backtrack
import Mathlib.Data.List.Pairwise

/-!
# Matching a Path

`Trie::match`, `_match`, `fallback_lookup` and `find_matched_child` of `http/trie.cc`, against
the first endpoint that a walk through the trie reaches.

## Conventions

`fallback_lookup` works on a local `Matched matched`, whose `node` is indeterminate until an
endpoint is found, and copies it into the result before that. What the pointer holds is a
parameter (`garbage`), for each of the two searches and each attempt. A read through it where no
node stands has no defined result, and `none` says so.

Links never dangle (`TrieData.Ok.linked`), so `deref` reads a node that is there wherever the
code follows a link.

## Main definitions

* `walk`, `fallbackLookup`, `retryLoop`, `matchOnce`, `matchPath`: the code.
* `Reaches`, `FirstReached`: a walk by the literal children and the parameter children whose
  constraint accepts the segment, and the first such walk.
* `Matches`: what the comment of `match` and its tests promise.

## Main results

* `matchPath_iff`: **a path is matched right, whatever the indeterminate pointers hold, exactly
  if no fallback is attempted** (`NoFallback`).
* `matchOnce_zeroed`: on zeroed memory a node that only a fallback reaches is never returned.
-/

open Bytes

namespace ArchNet.Routing

open Backtrack

variable {M : Type}

/-! ### The code -/

/-- The parameters of a request: a map from names to segments. -/
abbrev Params := List (Text × Text)

/-- `params[name] = value`. -/
def Params.insert (params : Params) (name value : Text) : Params :=
  (name, value) :: params.filter fun e => e.1 != name

/-- `mixin(a, b)`. -/
def mixin (a b : Params) : Params := b.foldl (fun a e => a.insert e.1 e.2) a

/-- `Matched`. -/
structure Matched where
  node : Option ℕ
  params : Params := []
  pipeline : List ℕ := []
  error : Bool := false
  deriving Repr, DecidableEq

/-- The node behind a link. -/
def TrieData.deref (t : TrieData M) (p : ℕ) : Node M := (t.node? p).getD { id := [] }

/-- `parent->find_child(segment)`. -/
def TrieData.findChild (t : TrieData M) (parent : ℕ) (segment : Text) : Option ℕ :=
  (t.deref parent).findChild segment

/-- `get_colon_node`. -/
def TrieData.getColonNode (env : Env) (t : TrieData M) (parent : ℕ) (segment : Text) : Option ℕ :=
  (t.deref parent).colonChild.filter fun c =>
    (t.deref c).regex = [] || env.isStrMatchRegex segment (t.deref c).regex

/-- `find_matched_child`: the node to go to, the parameter child, and whether they are the
same. -/
def TrieData.findMatchedChild (env : Env) (t : TrieData M) (parent : ℕ) (segment : Text) :
    Option ℕ × Option ℕ × Bool :=
  match t.findChild parent segment, t.getColonNode env parent segment with
  | some child, some colon => (some child, some colon, false)
  | some child, none => (some child, none, false)
  | none, some colon => (some colon, some colon, true)
  | none, none => (none, none, false)

/-- `FallbackStack`, the top in front: the index of a segment and the parameter child that was
passed by there. -/
abbrev FallbackStack := List (ℕ × ℕ)

/-- What a walk over the segments leaves: `flag`, `parent`, the stack and the parameters. -/
structure Walked where
  flag : Bool
  parent : ℕ
  stack : FallbackStack
  params : Params
  deriving Repr, DecidableEq

/-- **The loop over the segments** from index `i` on. The one of `_match` records the segment
under the name of the node it goes to, the one of `fallback_lookup` records nothing. -/
def walk (env : Env) (t : TrieData M) (record : Params → Text → Text → Params) :
    ℕ → ℕ → List Text → FallbackStack → Params → Walked
  | _, parent, [], stack, params => ⟨true, parent, stack, params⟩
  | i, parent, s :: segments, stack, params =>
      let (node, colonNode, isSame) := t.findMatchedChild env parent s
      let stack :=
        match colonNode with
        | some colonNode => if isSame then stack else (i, colonNode) :: stack
        | none => stack
      match node with
      | none => ⟨false, parent, stack, params⟩
      | some node =>
          walk env t record (i + 1) node segments stack (record params (t.deref node).name s)

/-- `if (!(name.empty())) params[name] = s`. -/
def recordParam (params : Params) (name s : Text) : Params :=
  if name = [] then params else params.insert name s

/-- What `fallback_lookup` leaves: `lr`, the stack and the parameters. -/
structure LookupResult where
  first : Bool
  second : Matched
  stack : FallbackStack
  params : Params
  deriving Repr, DecidableEq

/-- `fallback_lookup`. The result is a copy of `matched` from before the search, so that the
node that is found goes into `lr.first` only; its pipeline is built and dropped. -/
def fallbackLookup (env : Env) (t : TrieData M) (garbage : Option ℕ) (segments : List Text)
    (stack : FallbackStack) (params : Params) : LookupResult :=
  let matched : Matched := { node := garbage }
  match stack with
  | [] => ⟨false, matched, [], params⟩
  | (segmentIndex, parent) :: stack =>
      let params := mixin params
        (recordParam [] (t.deref parent).name (segments.getD segmentIndex []))
      let walked := walk env t (fun params _ _ => params) (segmentIndex + 1) parent
        (segments.drop (segmentIndex + 1)) stack params
      let node := if walked.flag && (t.deref walked.parent).endpoint then some walked.parent
        else matched.node
      ⟨node.isSome, matched, walked.stack, walked.params⟩

/-- How the loop of `_match` ends: at the limit, with a result, or with an empty stack. -/
inductive Ended
  | died
  | found (matched : Matched)
  | empty
  deriving Repr, DecidableEq

/-- `while (true)` in `_match`, with the attempts that the limit still allows. -/
def retryLoop (env : Env) (t : TrieData M) (garbage : ℕ → Option ℕ) (segments : List Text) :
    ℕ → FallbackStack → Params → Ended × Params
  | 0, _, params => (.died, params)
  | left + 1, stack, params =>
      let lr := fallbackLookup env t (garbage left) segments stack params
      if lr.first then (.found lr.second, lr.params)
      else if lr.stack = [] then (.empty, lr.params)
      else retryLoop env t garbage segments left lr.stack lr.params

/-- `_get_pipeline`, from the node upwards: the code climbs by `parent` and turns the result
round. There are at most as many steps as nodes, and none where the pointer dangles. -/
def climb (t : TrieData M) : ℕ → ℕ → Option (List ℕ)
  | 0, _ => none
  | steps + 1, p =>
      match t.node? p with
      | none => none
      | some n =>
          match n.parent with
          | none => some [p]
          | some q => (climb t steps q).map (p :: ·)

/-- `_get_pipeline`. -/
def getPipeline (t : TrieData M) (node : ℕ) : Option (List ℕ) :=
  (climb t t.nodes.length node).map List.reverse

/-- The segments of a path: `string_split`, and the first piece is erased. -/
def segmentsOfPath (path : Text) : List Text := (stringSplit slash path).tail

/-- The end of `_match`. -/
def finishMatch (t : TrieData M) (matched : Matched) (params : Params) : Option Matched :=
  let matched := { matched with params }
  match matched.node with
  | none => some matched
  | some node => (getPipeline t node).map fun pipeline =>
      { matched with pipeline := matched.pipeline ++ pipeline }

/-- `_match`. -/
def matchOnce (env : Env) (t : TrieData M) (garbage : ℕ → Option ℕ) (path : Text)
    (matched : Matched) : Option Matched :=
  let segments := segmentsOfPath path
  let walked := walk env t recordParam 0 0 segments [] matched.params
  let matched := { matched with
    params := walked.params
    node := if walked.flag && (t.deref walked.parent).endpoint then some walked.parent else none }
  if matched.node.isSome then finishMatch t matched walked.params
  else
    match retryLoop env t garbage segments t.maxFallbackDepth.toNat walked.stack walked.params with
    | (.died, _) => some { matched with error := true }
    | (.found matched', params) => finishMatch t matched' params
    | (.empty, params) => finishMatch t matched params

/-- `Trie::match` on a fresh `Matched`. -/
def TrieData.matchPath (env : Env) (t : TrieData M) (garbage : Bool → ℕ → Option ℕ)
    (indeterminate : Option ℕ) (path : Text) : Option Matched :=
  let matched : Matched := { node := indeterminate }
  if path = [] then some { matched with error := true }
  else if path.head? ≠ some slash then some { matched with error := true }
  else (matchOnce env t (garbage false) path matched).bind fun matched =>
    if matched.node = none ∧ t.strictRoute = true ∧ path.getLast? = some slash then
      matchOnce env t (garbage true) path.dropLast matched
    else some matched

/-! ### The meaning of a path -/

section Meaning

variable (env : Env) (t : TrieData M)

/-- **An endpoint is reached** by going, segment by segment, to the literal child or to the
parameter child whose constraint accepts the segment. -/
def Reaches (w : List Text) : Prop :=
  ∃ ds n, Walk t.findChild (t.getColonNode env) 0 w ds n ∧ (t.deref n).endpoint = true

/-- The endpoint that is reached first when the literal child is preferred at the earliest
segment where two walks differ. -/
def FirstReached (w : List Text) (n : ℕ) : Prop :=
  IsFirst t.findChild (t.getColonNode env) (fun n => (t.deref n).endpoint) 0 w n

/-- The parameter children to which a search has to fall back. -/
def fallbacks (w : List Text) : ℕ :=
  tries t.findChild (t.getColonNode env) (fun n => (t.deref n).endpoint) 0 w

/-- The walk that takes the literal child wherever there is one, and the parameter children that
it passes by. -/
def descent (w : List Text) : Option ℕ × List (ℕ × List Text) :=
  descend t.findChild (t.getColonNode env) (fun n => (t.deref n).endpoint) 0 w []

/-- The path is tried once more without its last `'/'` when nothing is found. -/
abbrev Retried (path : Text) : Prop := t.strictRoute = true ∧ path.getLast? = some slash

/-- More fallbacks are needed than `_max_fallback_depth` allows. -/
def Exceeds (path : Text) : Prop :=
  t.maxFallbackDepth.toNat < fallbacks env t (segmentsOfPath path) ∨
    ¬ Reaches env t (segmentsOfPath path) ∧ Retried t path ∧
      t.maxFallbackDepth.toNat < fallbacks env t (segmentsOfPath path.dropLast)

/-- **A path is matched right**: the error is set where more fallbacks are needed than the limit
allows, and otherwise a node is found exactly if one is reached, and it is the first one. -/
def Matches (path : Text) (result : Option Matched) : Prop :=
  ∃ matched, result = some matched ∧
    (Exceeds env t path → matched.error = true) ∧
    (¬ Exceeds env t path → matched.error = false ∧
      (matched.node.isSome = true ↔ Reaches env t (segmentsOfPath path) ∨
        Retried t path ∧ Reaches env t (segmentsOfPath path.dropLast)) ∧
      ∀ n, matched.node = some n → FirstReached env t (segmentsOfPath path) n ∨
        ¬ Reaches env t (segmentsOfPath path) ∧ Retried t path ∧
          FirstReached env t (segmentsOfPath path.dropLast) n)

/-- The walks that are made for a path end at an endpoint or pass by no parameter child. -/
def Quiet (path : Text) : Prop :=
  fallbacks env t (segmentsOfPath path) = 0 ∧
    ((descent env t (segmentsOfPath path)).1.isSome = true ∨ ¬ Retried t path ∨
      fallbacks env t (segmentsOfPath path.dropLast) = 0)

/-- **No fallback is attempted.** Where the limit allows no attempt at all, the first walk ends at
an endpoint or the limit is exceeded. -/
def NoFallback (path : Text) : Prop :=
  (t.maxFallbackDepth.toNat ≠ 0 → Quiet env t path) ∧
  (t.maxFallbackDepth.toNat = 0 →
    (descent env t (segmentsOfPath path)).1.isSome = true ∨ Exceeds env t path)

end Meaning

section Links

variable {t : TrieData M} {n m : Node M} {p c : ℕ} {s : Text}

theorem deref_eq (hn : t.node? p = some n) : t.deref p = n := by
  rw [TrieData.deref, hn, Option.getD_some]

/-- **The literal child** is the one with the segment's name. -/
theorem findChild_eq_some_iff (h : t.Ok) (hn : t.node? p = some n) :
    t.findChild p s = some c ↔ ∃ l ∈ n.children, sameName s l.key = true ∧ l.val = c := by
  rw [TrieData.findChild, deref_eq hn, Node.findChild, Option.map_eq_some_iff]
  constructor
  · rintro ⟨l, hl, hval⟩
    exact ⟨l, List.mem_of_find?_eq_some hl, by simpa using List.find?_some hl, hval⟩
  · rintro ⟨l, hl, hname, hval⟩
    cases hfind : n.children.find? (fun h => sameName s h.key) with
    | none => exact absurd hname (by simpa using List.find?_eq_none.mp hfind l hl)
    | some l' =>
        refine ⟨l', rfl, ?_⟩
        -- two keys with the segment's name would be the same name
        by_contra hne
        have hname' : sameName s l'.key = true := by simpa using List.find?_some hfind
        have hsame : sameName l.key l'.key = true := by
          rw [sameName, beq_iff_eq] at hname hname' ⊢
          exact hname.symm.trans hname'
        have hll : l ≠ l' := fun heq => hne (heq ▸ hval)
        have hsymm : Std.Symm fun a b : NodeHolder => sameName a.key b.key = false :=
          ⟨fun a b hab => by rw [sameName_comm]; exact hab⟩
        have hdiff := (h.linked hn).keys.forall hl (List.mem_of_find?_eq_some hfind) hll
        rw [hsame] at hdiff
        cases hdiff

/-- **The parameter child** is taken if its constraint accepts the segment. -/
theorem getColonNode_eq_some_iff {env : Env} (hn : t.node? p = some n) :
    t.getColonNode env p s = some c ↔ n.colonChild = some c ∧
      ((t.deref c).regex = [] ∨ env.isStrMatchRegex s (t.deref c).regex = true) := by
  rw [TrieData.getColonNode, deref_eq hn, Option.filter_eq_some_iff]
  simp

/-- A step leads to a child. -/
theorem follow_child {env : Env} {d : Turn} (h : t.Ok) (hn : t.node? p = some n)
    (hstep : follow t.findChild (t.getColonNode env) d p s = some c) :
    ∃ m, t.node? c = some m ∧ m.parent = some p := by
  cases d with
  | first =>
      rw [follow, TrieData.findChild, deref_eq hn] at hstep
      exact h.findChild hn hstep
  | second =>
      obtain ⟨hcolon, -⟩ := (getColonNode_eq_some_iff hn).mp hstep
      exact (h.linked hn).colon c hcolon

theorem node_of_walk {env : Env} {w : List Text} {ds : List Turn} (h : t.Ok)
    (hn : t.node? p = some n) (hwalk : Walk t.findChild (t.getColonNode env) p w ds c) :
    ∃ m, t.node? c = some m := by
  induction hwalk generalizing n with
  | nil p => exact ⟨n, hn⟩
  | cons hstep _ ih =>
      obtain ⟨m, hm, -⟩ := follow_child h hn hstep
      exact ih hm

theorem node_of_firstReached {env : Env} {w : List Text} (h : t.Ok)
    (hfirst : FirstReached env t w c) : ∃ m, t.node? c = some m := by
  obtain ⟨ds, hwalk, -⟩ := hfirst
  obtain ⟨r, hr, -⟩ := h.root
  exact node_of_walk h hr hwalk

/-- The climb from a node ends at the root. -/
theorem climb_isSome (h : t.Ok) {steps : ℕ} (hn : t.node? p = some n) (hsteps : p < steps) :
    (climb t steps p).isSome = true := by
  induction steps generalizing p n with
  | zero => omega
  | succ steps ih =>
      rw [climb, hn]
      dsimp only
      cases hparent : n.parent with
      | none => rfl
      | some q =>
          have hp : p ≠ 0 := by
            rintro rfl
            obtain ⟨r, hr, hnone⟩ := h.root
            obtain rfl := Option.some.inj (hr.symm.trans hn)
            rw [hnone] at hparent
            cases hparent
          obtain ⟨q', hq', hlt⟩ := h.parent hn hp
          obtain rfl := Option.some.inj (hparent.symm.trans hq')
          obtain ⟨m, hm⟩ : ∃ m, t.node? q = some m :=
            ⟨_, List.getElem?_eq_getElem (by have := lt_of_node? hn; omega)⟩
          rw [Option.isSome_map]
          exact ih hm (by omega)

/-- A node has a pipeline. -/
theorem getPipeline_isSome (h : t.Ok) (hn : t.node? p = some n) :
    ∃ pipeline, getPipeline t p = some pipeline := by
  rw [getPipeline]
  obtain ⟨l, hl⟩ := Option.isSome_iff_exists.mp (climb_isSome h hn (lt_of_node? hn))
  exact ⟨l.reverse, by rw [hl, Option.map_some]⟩

/-- A dangling pointer has none. -/
theorem getPipeline_dangling (hp : t.node? p = none) : getPipeline t p = none := by
  rw [getPipeline]
  cases t.nodes.length with
  | zero => rfl
  | succ steps => rw [climb, hp, Option.map_none]

end Links

section Search

variable {env : Env} {t : TrieData M} {segments w : List Text} {matched : Matched} {n : ℕ}

/-- Where a walk of the code has ended. -/
def endOf (t : TrieData M) (walked : Walked) : Option ℕ :=
  if walked.flag && (t.deref walked.parent).endpoint then some walked.parent else none

/-- An entry of the stack: the node, and the segments behind the index. -/
def entryOf (segments : List Text) (e : ℕ × ℕ) : ℕ × List Text :=
  (e.2, segments.drop (e.1 + 1))

/-- **The loop over the segments is a descent.** -/
theorem walk_eq_descend (record : Params → Text → Text → Params) {i parent : ℕ}
    {stack : FallbackStack} {params : Params} (hw : segments.drop i = w) :
    descend t.findChild (t.getColonNode env) (fun n => (t.deref n).endpoint) parent w
        (stack.map (entryOf segments)) =
      (endOf t (walk env t record i parent w stack params),
        (walk env t record i parent w stack params).stack.map (entryOf segments)) := by
  induction w generalizing i parent stack params with
  | nil => simp [descend, walk, endOf]
  | cons s w ih =>
      have hrest : segments.drop (i + 1) = w := by
        rw [← List.tail_drop, hw, List.tail_cons]
      rw [descend, walk, TrieData.findMatchedChild]
      cases t.findChild parent s with
      | none =>
          cases t.getColonNode env parent s with
          | none => simp [endOf]
          | some d => exact ih hrest
      | some c =>
          cases t.getColonNode env parent s with
          | none => exact ih hrest
          | some d =>
              dsimp only
              rw [show (d, w) = entryOf segments (i, d) by rw [entryOf, hrest], ← List.map_cons]
              exact ih hrest

/-- The first walk of `_match`. -/
def firstWalk (env : Env) (t : TrieData M) (segments : List Text) (params : Params) : Walked :=
  walk env t recordParam 0 0 segments [] params

theorem descent_eq (params : Params) : descent env t segments =
    (endOf t (firstWalk env t segments params),
      (firstWalk env t segments params).stack.map (entryOf segments)) :=
  @walk_eq_descend M env t segments segments recordParam 0 0 [] params (List.drop_zero ..)

/-- Where the first walk fails, the fallbacks that are needed are those on its stack. -/
theorem fallbacks_eq (h : (descent env t w).1 = none) :
    fallbacks env t w = triesAll t.findChild (t.getColonNode env)
      (fun n => (t.deref n).endpoint) (descent env t w).2 := by
  have hall := triesAll_descend h
  rw [triesAll, ite_self, Nat.add_zero] at hall
  exact hall.symm

theorem fallbacks_eq_zero_iff (h : (descent env t w).1 = none) :
    fallbacks env t w = 0 ↔ (descent env t w).2 = [] := by
  rw [fallbacks_eq h]
  cases (descent env t w).2 with
  | nil => simp [triesAll]
  | cons e stack =>
      rw [triesAll]
      simp

/-- **What is reached** is what the search finds. -/
theorem reaches_iff : Reaches env t w ↔ ∃ n, FirstReached env t w n := by
  constructor
  · rintro ⟨ds, n, hwalk, hend⟩
    cases hsearch : search t.findChild (t.getColonNode env) (fun n => (t.deref n).endpoint) 0 w with
    | none => exact absurd hend (by simp [search_eq_none_iff.mp hsearch ds n hwalk])
    | some m => exact ⟨m, search_eq_some_iff.mp hsearch⟩
  · rintro ⟨n, ds, hwalk, hend, -⟩
    exact ⟨ds, n, hwalk, hend⟩

theorem firstReached_of_descent (h : (descent env t w).1 = some n) : FirstReached env t w n :=
  search_eq_some_iff.mp (search_of_descend h)

theorem fallbacks_of_descent (h : (descent env t w).1 = some n) : fallbacks env t w = 0 :=
  tries_of_descend h

/-- Where the first walk fails and passes nothing by, nothing is reached. -/
theorem not_reaches (h : (descent env t w).1 = none) (hzero : fallbacks env t w = 0) :
    ¬ Reaches env t w := by
  rw [reaches_iff]
  rintro ⟨n, hfirst⟩
  have hall : (search t.findChild (t.getColonNode env) (fun n => (t.deref n).endpoint) 0 w).or
      none = (descent env t w).1.or (searchAll t.findChild (t.getColonNode env)
        (fun n => (t.deref n).endpoint) (descent env t w).2) :=
    @searchAll_descend ℕ Text t.findChild (t.getColonNode env)
      (fun n => (t.deref n).endpoint) 0 w []
  rw [search_eq_some_iff.mpr hfirst, h, (fallbacks_eq_zero_iff h).mp hzero] at hall
  simp [searchAll] at hall

theorem FirstReached.eq {m : ℕ} (h : FirstReached env t w n) (h' : FirstReached env t w m) :
    n = m :=
  IsFirst.eq h h'

variable {garbage : ℕ → Option ℕ} {path : Text}

theorem finishMatch_none {params : Params} (h : matched.node = none) :
    finishMatch t matched params = some { matched with params } := by
  rw [finishMatch]
  dsimp only
  rw [h]

/-- The first walk reaches an endpoint. -/
theorem matchOnce_direct (ht : t.Ok) (h : (descent env t (segmentsOfPath path)).1 = some n) :
    ∃ m pipeline, matchOnce env t garbage path matched = some m ∧ m.node = some n ∧
      m.error = matched.error ∧ getPipeline t n = some pipeline ∧
        m.pipeline = matched.pipeline ++ pipeline := by
  obtain ⟨nd, hnd⟩ := node_of_firstReached ht (firstReached_of_descent h)
  obtain ⟨pipeline, hpipeline⟩ := getPipeline_isSome ht hnd
  rw [descent_eq matched.params, endOf, firstWalk] at h
  refine ⟨⟨some n, (firstWalk env t (segmentsOfPath path) matched.params).params,
    matched.pipeline ++ pipeline, matched.error⟩, pipeline, ?_, rfl, rfl, hpipeline, rfl⟩
  rw [matchOnce]
  dsimp only at h ⊢
  rw [h, Option.isSome_some, if_pos rfl, finishMatch]
  dsimp only
  rw [hpipeline, Option.map_some]
  rfl

/-- What `_match` does where its first walk fails. -/
theorem matchOnce_eq (h : (descent env t (segmentsOfPath path)).1 = none) :
    matchOnce env t garbage path matched =
      match retryLoop env t garbage (segmentsOfPath path) t.maxFallbackDepth.toNat
          (firstWalk env t (segmentsOfPath path) matched.params).stack
          (firstWalk env t (segmentsOfPath path) matched.params).params with
      | (.died, _) => some { matched with
          node := none, error := true
          params := (firstWalk env t (segmentsOfPath path) matched.params).params }
      | (.found matched', params) => finishMatch t matched' params
      | (.empty, params) => some { matched with node := none, params } := by
  rw [descent_eq matched.params, endOf, firstWalk] at h
  rw [matchOnce]
  dsimp only at h ⊢
  rw [h, if_neg (by simp)]
  rfl

/-- The limit allows no attempt. -/
theorem matchOnce_died (h : (descent env t (segmentsOfPath path)).1 = none)
    (hlimit : t.maxFallbackDepth.toNat = 0) :
    ∃ m, matchOnce env t garbage path matched = some m ∧ m.node = none ∧ m.error = true ∧
      m.pipeline = matched.pipeline := by
  rw [matchOnce_eq h, hlimit, retryLoop]
  exact ⟨_, rfl, rfl, rfl, rfl⟩

/-- The first walk fails and has passed nothing by. -/
theorem matchOnce_empty (h : (descent env t (segmentsOfPath path)).1 = none)
    (hlimit : t.maxFallbackDepth.toNat ≠ 0)
    (hzero : fallbacks env t (segmentsOfPath path) = 0) :
    ∃ m, matchOnce env t garbage path matched = some m ∧ m.node = none ∧
      m.error = matched.error ∧ m.pipeline = matched.pipeline := by
  have hstack := (fallbacks_eq_zero_iff h).mp hzero
  rw [descent_eq matched.params] at hstack
  obtain ⟨left, hleft⟩ := Nat.exists_eq_succ_of_ne_zero hlimit
  rw [matchOnce_eq h, List.map_eq_nil_iff.mp hstack, hleft, retryLoop, fallbackLookup]
  exact ⟨_, rfl, rfl, rfl, rfl⟩

/-- An attempt is made, and the indeterminate pointers dangle. -/
theorem matchOnce_dangling {wild : ℕ} (h : (descent env t (segmentsOfPath path)).1 = none)
    (hlimit : t.maxFallbackDepth.toNat ≠ 0)
    (hpos : fallbacks env t (segmentsOfPath path) ≠ 0) (hwild : t.node? wild = none)
    (hgarbage : ∀ k, garbage k = some wild) :
    matchOnce env t garbage path matched = none := by
  have hstack := mt (fallbacks_eq_zero_iff h).mpr hpos
  rw [descent_eq matched.params] at hstack
  obtain ⟨left, hleft⟩ := Nat.exists_eq_succ_of_ne_zero hlimit
  rw [matchOnce_eq h, hleft, retryLoop]
  cases hs : (firstWalk env t (segmentsOfPath path) matched.params).stack with
  | nil => exact absurd (by rw [hs]; rfl) hstack
  | cons e stack =>
      obtain ⟨i, c⟩ := e
      -- the result is found, whatever the walk of the attempt finds
      have hfirst : (fallbackLookup env t (garbage left) (segmentsOfPath path) ((i, c) :: stack)
          (firstWalk env t (segmentsOfPath path) matched.params).params).first = true := by
        rw [fallbackLookup, hgarbage]
        dsimp only
        split <;> rfl
      rw [hfirst, if_pos rfl, fallbackLookup, hgarbage]
      dsimp only
      rw [finishMatch]
      dsimp only
      rw [getPipeline_dangling hwild, Option.map_none]

theorem fallbackLookup_second {left : Option ℕ} {stack : FallbackStack} {params : Params} :
    (fallbackLookup env t left segments stack params).second = { node := left } := by
  cases stack with
  | nil => rfl
  | cons e stack => rfl

theorem retryLoop_found {left : ℕ} {stack : FallbackStack} {params params' : Params}
    (h : retryLoop env t garbage segments left stack params = (.found matched, params')) :
    matched.pipeline = [] := by
  induction left generalizing stack params with
  | zero => cases h
  | succ left ih =>
      rw [retryLoop] at h
      split_ifs at h with hfirst hempty
      · obtain ⟨hended, -⟩ := Prod.mk.inj h
        rw [← Ended.found.inj hended, fallbackLookup_second]
      · obtain ⟨hended, -⟩ := Prod.mk.inj h
        cases hended
      · exact ih h

/-- What is found comes with its pipeline, and nothing with an empty one. -/
def HasPipeline (t : TrieData M) (m : Matched) : Prop :=
  (∀ n, m.node = some n → getPipeline t n = some m.pipeline) ∧ (m.node = none → m.pipeline = [])

theorem finishMatch_pipeline {m : Matched} {params : Params}
    (h : finishMatch t matched params = some m) (hempty : matched.pipeline = []) :
    HasPipeline t m := by
  rw [finishMatch] at h
  dsimp only at h
  cases hnode : matched.node with
  | none =>
      rw [hnode] at h
      obtain rfl := Option.some.inj h
      exact ⟨by simp, fun _ => hempty⟩
  | some n =>
      rw [hnode] at h
      obtain ⟨pipeline, hpipeline, rfl⟩ := Option.map_eq_some_iff.mp h
      refine ⟨fun n' hn' => ?_, by simp⟩
      obtain rfl := Option.some.inj hn'
      dsimp only
      rw [hpipeline, hempty, List.nil_append]

theorem matchOnce_pipeline {m : Matched} (ht : t.Ok)
    (h : matchOnce env t garbage path matched = some m) (hempty : matched.pipeline = []) :
    HasPipeline t m := by
  cases hd : (descent env t (segmentsOfPath path)).1 with
  | some n =>
      obtain ⟨m', pipeline, hm, hnode, -, hpipeline, heq⟩ :=
        @matchOnce_direct M env t matched n garbage path ht hd
      obtain rfl := Option.some.inj (hm.symm.trans h)
      refine ⟨fun n' hn' => ?_, fun hnone => ?_⟩
      · obtain rfl := Option.some.inj (hnode.symm.trans hn')
        rw [hpipeline, heq, hempty, List.nil_append]
      · rw [hnode] at hnone
        cases hnone
  | none =>
      rw [matchOnce_eq hd] at h
      cases hloop : retryLoop env t garbage (segmentsOfPath path) t.maxFallbackDepth.toNat
          (firstWalk env t (segmentsOfPath path) matched.params).stack
          (firstWalk env t (segmentsOfPath path) matched.params).params with
      | mk ended params =>
          rw [hloop] at h
          cases ended with
          | died =>
              obtain rfl := Option.some.inj h
              exact ⟨by simp, fun _ => hempty⟩
          | found matched' => exact finishMatch_pipeline h (retryLoop_found hloop)
          | empty =>
              obtain rfl := Option.some.inj h
              exact ⟨by simp, fun _ => hempty⟩

/-- **The loop on zeroed memory**: it ends at the limit, with an empty result where an attempt
has found an endpoint, or with an empty stack. -/
theorem retryLoop_zeroed {left : ℕ} {stack : FallbackStack} {params : Params} :
    (retryLoop env t (fun _ => none) segments left stack params).1 =
      if left < max 1 (triesAll t.findChild (t.getColonNode env) (fun n => (t.deref n).endpoint)
        (stack.map (entryOf segments))) then .died
      else if (searchAll t.findChild (t.getColonNode env) (fun n => (t.deref n).endpoint)
        (stack.map (entryOf segments))).isSome then .found { node := none }
      else .empty := by
  induction left generalizing stack params with
  | zero => rw [retryLoop, if_pos (by omega)]
  | succ left ih =>
      rw [retryLoop]
      cases stack with
      | nil =>
          rw [fallbackLookup, List.map_nil, if_neg (by simp), searchAll]
          rfl
      | cons e stack =>
          obtain ⟨i, c⟩ := e
          set p := mixin params (recordParam [] (t.deref c).name (segments.getD i [])) with hp
          have hwalk := @walk_eq_descend M env t segments _ (fun params _ _ => params) (i + 1) c
            stack p rfl
          set walked := walk env t (fun params _ _ => params) (i + 1) c (segments.drop (i + 1))
            stack p with hwalked
          have hlookup : fallbackLookup env t none segments ((i, c) :: stack) params =
              ⟨(endOf t walked).isSome, { node := none }, walked.stack, walked.params⟩ := rfl
          rw [hlookup, List.map_cons, entryOf, searchAll_cons, searchAll_descend, hwalk, triesAll]
          dsimp only
          cases hend : endOf t walked with
          | some n =>
              have hd : (descend t.findChild (t.getColonNode env) (fun n => (t.deref n).endpoint) c
                  (segments.drop (i + 1)) (stack.map (entryOf segments))).1 = some n := by
                rw [hwalk, hend]
              rw [tries_of_descend hd, search_of_descend hd]
              simp
          | none =>
              have hd : (descend t.findChild (t.getColonNode env) (fun n => (t.deref n).endpoint) c
                  (segments.drop (i + 1)) (stack.map (entryOf segments))).1 = none := by
                rw [hwalk, hend]
              have htries := triesAll_descend hd
              rw [hwalk] at htries
              rw [Nat.add_assoc, ← htries, Option.none_or]
              dsimp only [Option.isSome_none]
              rw [if_neg Bool.false_ne_true]
              cases hstack : walked.stack with
              | nil => simp [triesAll, searchAll]
              | cons e' stack' =>
                  have hpos : 1 ≤ triesAll t.findChild (t.getColonNode env)
                      (fun n => (t.deref n).endpoint)
                      (walked.stack.map (entryOf segments)) := by
                    rw [hstack, List.map_cons, entryOf, triesAll]
                    omega
                  rw [← hstack, if_neg (by rw [hstack]; simp), ih]
                  refine if_congr ?_ rfl rfl
                  omega

/-- **On zeroed memory a node that only a fallback reaches is never returned**: what is found is
what the first walk finds, and the limit counts one attempt even where there is nothing to fall
back to. -/
theorem matchOnce_zeroed (ht : t.Ok) (herror : matched.error = false) :
    ∃ m, matchOnce env t (fun _ => none) path matched = some m ∧
      m.node = (descent env t (segmentsOfPath path)).1 ∧
      (m.error = true ↔ (descent env t (segmentsOfPath path)).1 = none ∧
        t.maxFallbackDepth.toNat < max 1 (fallbacks env t (segmentsOfPath path))) := by
  cases hd : (descent env t (segmentsOfPath path)).1 with
  | some n =>
      obtain ⟨m, -, hm, hnode, herr, -⟩ :=
        @matchOnce_direct M env t matched n (fun _ => none) _ ht hd
      exact ⟨m, hm, hnode, by simp [herr, herror]⟩
  | none =>
      rw [matchOnce_eq hd, fallbacks_eq hd, descent_eq matched.params]
      dsimp only
      set walked := firstWalk env t (segmentsOfPath path) matched.params
      have hloop := @retryLoop_zeroed M env t (segmentsOfPath path) t.maxFallbackDepth.toNat
        walked.stack walked.params
      cases hr : retryLoop env t (fun _ => none) (segmentsOfPath path) t.maxFallbackDepth.toNat
          walked.stack walked.params with
      | mk ended params =>
          rw [hr] at hloop
          dsimp only at hloop ⊢
          split_ifs at hloop with hlimit hfound
          · rw [hloop]
            exact ⟨_, rfl, rfl, iff_of_true rfl ⟨rfl, hlimit⟩⟩
          · rw [hloop]
            dsimp only
            exact ⟨_, finishMatch_none rfl, rfl,
              iff_of_false Bool.false_ne_true fun h => hlimit h.2⟩
          · rw [hloop]
            refine ⟨_, rfl, rfl, iff_of_false ?_ fun h => hlimit h.2⟩
            dsimp only
            rw [herror]
            exact Bool.false_ne_true

end Search

section Path

variable {env : Env} {t : TrieData M} {garbage : Bool → ℕ → Option ℕ} {indeterminate : Option ℕ}
  {rest : Text} {m : Matched}

/-- A path that starts with `'/'` is looked up, and once more where nothing is found. -/
theorem matchPath_cons : t.matchPath env garbage indeterminate (slash :: rest) =
    (matchOnce env t (garbage false) (slash :: rest) { node := indeterminate }).bind fun matched =>
      if matched.node = none ∧ Retried t (slash :: rest) then
        matchOnce env t (garbage true) (slash :: rest).dropLast matched
      else some matched := by
  rw [TrieData.matchPath, if_neg (List.cons_ne_nil _ _), if_neg (not_not.mpr List.head?_cons)]

theorem matchPath_of_none
    (h : matchOnce env t (garbage false) (slash :: rest) { node := indeterminate } = none) :
    t.matchPath env garbage indeterminate (slash :: rest) = none := by
  rw [matchPath_cons, h, Option.bind_none]

/-- The first search decides. -/
theorem matchPath_of_some
    (h : matchOnce env t (garbage false) (slash :: rest) { node := indeterminate } = some m)
    (hm : m.node = none → ¬ Retried t (slash :: rest)) :
    t.matchPath env garbage indeterminate (slash :: rest) = some m := by
  rw [matchPath_cons, h, Option.bind_some, if_neg fun hretry => hm hretry.1 hretry.2]

/-- The path is tried once more. -/
theorem matchPath_of_retry
    (h : matchOnce env t (garbage false) (slash :: rest) { node := indeterminate } = some m)
    (hm : m.node = none) (hretried : Retried t (slash :: rest)) :
    t.matchPath env garbage indeterminate (slash :: rest) =
      matchOnce env t (garbage true) (slash :: rest).dropLast m := by
  rw [matchPath_cons, h, Option.bind_some, if_pos ⟨hm, hretried⟩]

/-- **Whatever the indeterminate pointers hold**, a node that is returned comes with its
pipeline. -/
theorem matchPath_pipeline {n : ℕ} (ht : t.Ok)
    (h : t.matchPath env garbage indeterminate (slash :: rest) = some m) (hn : m.node = some n) :
    getPipeline t n = some m.pipeline := by
  cases hfirst : matchOnce env t (garbage false) (slash :: rest) { node := indeterminate } with
  | none =>
      rw [matchPath_of_none hfirst] at h
      cases h
  | some m' =>
      have hpipe := matchOnce_pipeline ht hfirst rfl
      by_cases hretry : m'.node = none ∧ Retried t (slash :: rest)
      · rw [matchPath_of_retry hfirst hretry.1 hretry.2] at h
        exact (matchOnce_pipeline ht h (hpipe.2 hretry.1)).1 n hn
      · rw [matchPath_of_some hfirst fun hnone hretried => hretry ⟨hnone, hretried⟩] at h
        obtain rfl := Option.some.inj h
        exact hpipe.1 n hn

/-- With a limit that allows no attempt, what the first walk does not find is an error. -/
theorem matchPath_died (ht : t.Ok)
    (hnone : (descent env t (segmentsOfPath (slash :: rest))).1 = none)
    (hlimit : t.maxFallbackDepth.toNat = 0) :
    ∃ m, t.matchPath env garbage indeterminate (slash :: rest) = some m ∧ m.error = true := by
  obtain ⟨m, hm, hnode, herror, -⟩ := @matchOnce_died M env t { node := indeterminate }
    (garbage false) (slash :: rest) hnone hlimit
  by_cases hretried : Retried t (slash :: rest)
  · rw [matchPath_of_retry hm hnode hretried]
    cases hd : (descent env t (segmentsOfPath (slash :: rest).dropLast)).1 with
    | none =>
        obtain ⟨m', hm', -, herror', -⟩ := @matchOnce_died M env t m (garbage true) _ hd hlimit
        exact ⟨m', hm', herror'⟩
    | some n =>
        obtain ⟨m', -, hm', -, herror', -⟩ := @matchOnce_direct M env t m n (garbage true) _ ht hd
        exact ⟨m', hm', herror'.trans herror⟩
  · exact ⟨m, matchPath_of_some hm fun _ => hretried, herror⟩

/-- **The first walk finds the node.** -/
theorem matchPath_direct {n : ℕ} (ht : t.Ok)
    (hd : (descent env t (segmentsOfPath (slash :: rest))).1 = some n) :
    ∃ m, t.matchPath env garbage indeterminate (slash :: rest) = some m ∧ m.node = some n ∧
      m.error = false ∧ getPipeline t n = some m.pipeline := by
  obtain ⟨m, pipeline, hm, hnode, herror, hpipeline, heq⟩ :=
    @matchOnce_direct M env t { node := indeterminate } n (garbage false) (slash :: rest) ht hd
  exact ⟨m, matchPath_of_some hm (by rw [hnode]; simp), hnode, herror,
    hpipeline.trans (congrArg some heq.symm)⟩

theorem matches_of_descent {n : ℕ} (ht : t.Ok)
    (hd : (descent env t (segmentsOfPath (slash :: rest))).1 = some n) :
    Matches env t (slash :: rest) (t.matchPath env garbage indeterminate (slash :: rest)) := by
  obtain ⟨m, hm, hnode, herror, -⟩ := @matchPath_direct M env t garbage indeterminate rest n ht hd
  have hfirst := firstReached_of_descent hd
  have hreaches : Reaches env t (segmentsOfPath (slash :: rest)) := reaches_iff.mpr ⟨n, hfirst⟩
  refine ⟨m, hm, ?_, fun _ => ⟨herror, ?_, ?_⟩⟩
  · rintro (hlt | ⟨hnot, -⟩)
    · rw [fallbacks_of_descent hd] at hlt
      exact absurd hlt (Nat.not_lt_zero _)
    · exact absurd hreaches hnot
  · rw [hnode]
    exact iff_of_true rfl (.inl hreaches)
  · intro n' hn'
    obtain rfl := Option.some.inj (hnode.symm.trans hn')
    exact .inl hfirst

/-- **Nothing is found by the first walk, and it has passed nothing by**: the second walk, where
the path is tried once more, decides. -/
theorem matchPath_empty (ht : t.Ok)
    (hd : (descent env t (segmentsOfPath (slash :: rest))).1 = none)
    (hlimit : t.maxFallbackDepth.toNat ≠ 0)
    (hzero : fallbacks env t (segmentsOfPath (slash :: rest)) = 0)
    (hretry : ¬ Retried t (slash :: rest) ∨
      fallbacks env t (segmentsOfPath (slash :: rest).dropLast) = 0) :
    ∃ m, t.matchPath env garbage indeterminate (slash :: rest) = some m ∧ m.error = false ∧
      (∀ n, m.node = some n ↔ Retried t (slash :: rest) ∧
        (descent env t (segmentsOfPath (slash :: rest).dropLast)).1 = some n) ∧
      ∀ n, m.node = some n → getPipeline t n = some m.pipeline := by
  obtain ⟨m, hm, hnode, herror, hpipe⟩ := @matchOnce_empty M env t { node := indeterminate }
    (garbage false) (slash :: rest) hd hlimit hzero
  by_cases hretried : Retried t (slash :: rest)
  · have hzero' := hretry.resolve_left (not_not.mpr hretried)
    rw [matchPath_of_retry hm hnode hretried]
    cases hd' : (descent env t (segmentsOfPath (slash :: rest).dropLast)).1 with
    | none =>
        obtain ⟨m', hm', hnode', herror', -⟩ :=
          @matchOnce_empty M env t m (garbage true) _ hd' hlimit hzero'
        refine ⟨m', hm', herror'.trans herror, fun n => ?_, fun n hn => ?_⟩
        · rw [hnode']
          exact iff_of_false (by simp) (by simp)
        · rw [hnode'] at hn
          cases hn
    | some k =>
        obtain ⟨m', pipeline, hm', hnode', herror', hpipeline, heq⟩ :=
          @matchOnce_direct M env t m k (garbage true) _ ht hd'
        refine ⟨m', hm', herror'.trans herror, fun n => ?_, fun n hn => ?_⟩
        · rw [hnode']
          exact ⟨fun h => ⟨hretried, h⟩, fun h => h.2⟩
        · obtain rfl := Option.some.inj (hnode'.symm.trans hn)
          rw [hpipeline, heq, hpipe, List.nil_append]
  · refine ⟨m, matchPath_of_some hm fun _ => hretried, herror, fun n => ?_, fun n hn => ?_⟩
    · rw [hnode]
      exact iff_of_false (by simp) fun h => hretried h.1
    · rw [hnode] at hn
      cases hn

theorem matches_of_empty (ht : t.Ok)
    (hd : (descent env t (segmentsOfPath (slash :: rest))).1 = none)
    (hlimit : t.maxFallbackDepth.toNat ≠ 0)
    (hzero : fallbacks env t (segmentsOfPath (slash :: rest)) = 0)
    (hretry : ¬ Retried t (slash :: rest) ∨
      fallbacks env t (segmentsOfPath (slash :: rest).dropLast) = 0) :
    Matches env t (slash :: rest) (t.matchPath env garbage indeterminate (slash :: rest)) := by
  obtain ⟨m, hm, herror, hnode, -⟩ := @matchPath_empty M env t garbage indeterminate rest ht hd
    hlimit hzero hretry
  have hnot := not_reaches hd hzero
  have hexceeds : ¬ Exceeds env t (slash :: rest) := by
    rintro (hlt | ⟨-, hretried, hlt⟩)
    · rw [hzero] at hlt
      exact absurd hlt (Nat.not_lt_zero _)
    · rw [hretry.resolve_left (not_not.mpr hretried)] at hlt
      exact absurd hlt (Nat.not_lt_zero _)
  refine ⟨m, hm, fun h => absurd h hexceeds, fun _ => ⟨herror, ?_, ?_⟩⟩
  · rw [Option.isSome_iff_exists]
    constructor
    · rintro ⟨n, hn⟩
      obtain ⟨hretried, hd'⟩ := (hnode n).mp hn
      exact .inr ⟨hretried, reaches_iff.mpr ⟨n, firstReached_of_descent hd'⟩⟩
    · rintro (h | ⟨hretried, h⟩)
      · exact absurd h hnot
      · have hzero' := hretry.resolve_left (not_not.mpr hretried)
        cases hd' : (descent env t (segmentsOfPath (slash :: rest).dropLast)).1 with
        | none => exact absurd h (not_reaches hd' hzero')
        | some n => exact ⟨n, (hnode n).mpr ⟨hretried, hd'⟩⟩
  · intro n hn
    obtain ⟨hretried, hd'⟩ := (hnode n).mp hn
    exact .inr ⟨hnot, hretried, firstReached_of_descent hd'⟩

/-- **A fallback is attempted, and the indeterminate pointers dangle**: there is no result. -/
theorem matchPath_dangling (hlimit : t.maxFallbackDepth.toNat ≠ 0)
    (hnot : ¬ Quiet env t (slash :: rest)) :
    t.matchPath env (fun _ _ => some t.nodes.length) indeterminate (slash :: rest) = none := by
  have hd : (descent env t (segmentsOfPath (slash :: rest))).1 = none := by
    cases hsome : (descent env t (segmentsOfPath (slash :: rest))).1 with
    | none => rfl
    | some n => exact absurd ⟨fallbacks_of_descent hsome, .inl (by rw [hsome]; rfl)⟩ hnot
  by_cases hzero : fallbacks env t (segmentsOfPath (slash :: rest)) = 0
  · have hretry : Retried t (slash :: rest) ∧
        fallbacks env t (segmentsOfPath (slash :: rest).dropLast) ≠ 0 := by
      by_contra hcon
      rw [not_and_or, not_not] at hcon
      exact hnot ⟨hzero, .inr hcon⟩
    obtain ⟨hretried, hpos⟩ := hretry
    have hd' : (descent env t (segmentsOfPath (slash :: rest).dropLast)).1 = none := by
      cases hsome : (descent env t (segmentsOfPath (slash :: rest).dropLast)).1 with
      | none => rfl
      | some n => exact absurd (fallbacks_of_descent hsome) hpos
    obtain ⟨m, hm, hnode, -⟩ := @matchOnce_empty M env t { node := indeterminate }
      (fun _ => some t.nodes.length) (slash :: rest) hd hlimit hzero
    rw [matchPath_of_retry hm hnode hretried]
    exact matchOnce_dangling hd' hlimit hpos node?_length fun _ => rfl
  · exact matchPath_of_none (matchOnce_dangling hd hlimit hzero node?_length fun _ => rfl)

/-- **Where no fallback is attempted** there is a result, and a node in it is an endpoint that a
walk reaches, with its pipeline. -/
theorem matchPath_quiet (ht : t.Ok)
    (h : t.maxFallbackDepth.toNat = 0 ∨ Quiet env t (slash :: rest)) :
    ∃ m, t.matchPath env garbage indeterminate (slash :: rest) = some m ∧
      (m.error = false → ∀ n, m.node = some n →
        (∃ w, FirstReached env t w n) ∧ getPipeline t n = some m.pipeline) := by
  cases hd : (descent env t (segmentsOfPath (slash :: rest))).1 with
  | some k =>
      obtain ⟨m, hm, hnode, -, hpipe⟩ :=
        @matchPath_direct M env t garbage indeterminate rest k ht hd
      refine ⟨m, hm, fun _ n hn => ?_⟩
      obtain rfl := Option.some.inj (hnode.symm.trans hn)
      exact ⟨⟨_, firstReached_of_descent hd⟩, hpipe⟩
  | none =>
      by_cases hlimit : t.maxFallbackDepth.toNat = 0
      · obtain ⟨m, hm, herror⟩ := @matchPath_died M env t garbage indeterminate rest ht hd hlimit
        refine ⟨m, hm, fun hfalse => ?_⟩
        rw [herror] at hfalse
        cases hfalse
      · obtain ⟨hzero, hrest⟩ := h.resolve_left hlimit
        have hretry := hrest.resolve_left (by rw [hd]; simp)
        obtain ⟨m, hm, -, hnode, hpipe⟩ := @matchPath_empty M env t garbage indeterminate rest ht hd
          hlimit hzero hretry
        refine ⟨m, hm, fun _ n hn => ⟨?_, hpipe n hn⟩⟩
        exact ⟨_, firstReached_of_descent ((hnode n).mp hn).2⟩

/-- **Whatever the indeterminate pointers hold**, a path is matched right exactly if no fallback
is attempted. -/
theorem matchPath_iff (env : Env) (t : Trie M) (rest : Text) :
    (∀ garbage indeterminate, Matches env t.toTrieData (slash :: rest)
      (t.toTrieData.matchPath env garbage indeterminate (slash :: rest))) ↔
        NoFallback env t.toTrieData (slash :: rest) := by
  set d := t.toTrieData with hdata
  have ht : d.Ok := t.ok
  constructor
  · intro h
    -- the indeterminate pointers dangle
    have hdangling := h (fun _ _ => some d.nodes.length) none
    constructor
    · intro hlimit
      by_contra hnot
      obtain ⟨m, hm, -⟩ := hdangling
      rw [matchPath_dangling hlimit hnot] at hm
      cases hm
    · intro hlimit
      cases hd : (descent env d (segmentsOfPath (slash :: rest))).1 with
      | some n => exact .inl rfl
      | none =>
          refine .inr ?_
          by_contra hexceeds
          obtain ⟨m, hm, herror⟩ := @matchPath_died M env d (fun _ _ => some d.nodes.length) none
            rest ht hd hlimit
          obtain ⟨m', hm', -, hright⟩ := hdangling
          obtain rfl := Option.some.inj (hm.symm.trans hm')
          rw [(hright hexceeds).1] at herror
          cases herror
  · intro h garbage indeterminate
    cases hd : (descent env d (segmentsOfPath (slash :: rest))).1 with
    | some n => exact matches_of_descent ht hd
    | none =>
        by_cases hlimit : d.maxFallbackDepth.toNat = 0
        · have hexceeds : Exceeds env d (slash :: rest) :=
            (h.2 hlimit).resolve_left (by rw [hd]; simp)
          obtain ⟨m, hm, herror⟩ := @matchPath_died M env d garbage indeterminate rest ht hd hlimit
          exact ⟨m, hm, fun _ => herror, fun hnot => absurd hexceeds hnot⟩
        · obtain ⟨hzero, hrest⟩ := h.1 hlimit
          exact matches_of_empty ht hd hlimit hzero (hrest.resolve_left (by rw [hd]; simp))

end Path

/-- A world in which every segment is a name. -/
def anyName : Env where
  regexMatch _ _ := true
  randomStr _ := List.replicate 10 120
  length_randomStr _ := List.length_replicate

/-- The trie of the routes `/a/b` and `/:x/c`. -/
def twoRoutes : Trie Unit :=
  (((Trie.new anyName).addNode anyName (ascii "/a/b")).1.addNode anyName (ascii "/:x/c")).1

/-- `/a/c` is a path of the second route. The literal child `a` has no child `c`; the fallback to
`:x` finds the endpoint, and the result of the search is the copy made before. -/
theorem fallback_loses_node :
    ((Trie.new (M := Unit) anyName).addNode anyName (ascii "/a/b")).2.isOk = true ∧
      (((Trie.new (M := Unit) anyName).addNode anyName (ascii "/a/b")).1.addNode anyName
        (ascii "/:x/c")).2.isOk = true ∧
      ¬ Matches anyName twoRoutes.toTrieData (ascii "/a/c")
        (twoRoutes.toTrieData.matchPath anyName (fun _ _ => none) none (ascii "/a/c")) := by
  refine ⟨by decide, by decide, ?_⟩
  rintro ⟨m, hm, -, hright⟩
  have hresult : twoRoutes.toTrieData.matchPath anyName (fun _ _ => none) none (ascii "/a/c") =
      some { node := none, params := [(ascii "x", ascii "a")] } := by decide
  obtain rfl := Option.some.inj (hm.symm.trans hresult)
  have hpath : segmentsOfPath (ascii "/a/c") = [ascii "a", ascii "c"] := by decide
  have hfallbacks : fallbacks anyName twoRoutes.toTrieData [ascii "a", ascii "c"] = 1 := by decide
  have hreaches : Reaches anyName twoRoutes.toTrieData [ascii "a", ascii "c"] := by
    refine ⟨[.second, .first], 4, .cons (m := 3) ?_ (.cons (m := 4) ?_ (.nil 4)), ?_⟩ <;> decide
  have hexceeds : ¬ Exceeds anyName twoRoutes.toTrieData (ascii "/a/c") := by
    rintro (hlt | ⟨hnot, -⟩)
    · rw [hpath, hfallbacks] at hlt
      revert hlt
      decide
    · exact hnot (hpath ▸ hreaches)
  have hfound := (hright hexceeds).2.1.mpr (.inl (hpath ▸ hreaches))
  cases hfound

end ArchNet.Routing

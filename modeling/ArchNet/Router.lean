import ArchNet.TrieMatch
import Mathlib.Data.List.Chain

/-!
# The Router

`Router::use`, `init_basic_method`, `handle` and `compose_func` of `http/router.cc`, with the
functions of `http/node.cc` that they call.

## Conventions

A middleware is a function of the request, of everything else it sees (the response, the rest of
the request) and of the error; it may throw. `Handled.invoked` lists the actions that were called,
in order: nothing in the code depends on it.

## Main definitions

* `Router.use`, `Router.initBasicMethod`: the registrations, and `Router.register`, any of them.
* `composeFunc`, `runStack`, `Router.handle`: a request.
* `PathTo`: the nodes on the path from the root to a node.
* `Ordered`: the middlewares of the path, then the handlers, up to the first error.

## Main results

* `getPipeline_of_walk`: the pipeline of a node that a walk reaches is the path to it.
* `handle_ordered_iff`: **a request runs the actions of the path to the matched node in order, and
  stops at the first error, whatever the indeterminate pointers of the match hold, exactly if no
  fallback is attempted**.
-/

open Bytes

namespace ArchNet.Routing

open Backtrack

/-- `SideError`. -/
structure SideError where
  statusCode : ℤ := -1
  errorMsg : Text := []
  deriving Repr, DecidableEq

/-- `SideError::empty`. -/
def SideError.empty (err : SideError) : Bool := err.statusCode == -1 && err.errorMsg == []

/-- The members of `HttpRequest` that the router reads and writes. -/
structure Request where
  method : Text
  path : Text
  params : Params := []
  deriving Repr, DecidableEq

/-- What an action throws: a `std::exception` with its text, or something else. -/
inductive Thrown
  | std (what : Text)
  | other
  deriving Repr, DecidableEq

variable {ρ : Type}

/-- What a call leaves behind. -/
structure Effect (ρ : Type) where
  request : Request
  rest : ρ
  err : SideError
  thrown : Option Thrown := none

/-- `Middleware`. -/
abbrev Middleware (ρ : Type) := Request → ρ → SideError → Effect ρ

/-- `HttpHandler`. -/
abbrev HttpHandler (ρ : Type) := Request → ρ → Request × ρ × Option Thrown

/-- The lambda around a handler: it has no error to set. -/
def HttpHandler.toMiddleware (h : HttpHandler ρ) : Middleware ρ := fun request rest err =>
  let (request, rest, thrown) := h request rest
  { request, rest, err, thrown }

/-! ### `http/node.cc` -/

section Node

variable {M : Type}

/-- `supported_http_methods`. -/
def supportedHttpMethods : List Text :=
  ["GET", "PUT", "POST", "PATCH", "DELETE", "HEAD", "options", "ALL"].map ascii

/-- `Node::check_method`. -/
def checkMethod (method : Text) : Bool := method != [] && supportedHttpMethods.contains method

/-- `Node::find_handler`. -/
def Node.findHandler (n : Node M) (method : Text) : Bool :=
  ((n.handlers.lookup method).getD []).length > 0

/-- `Node::use`. -/
def TrieData.use (t : TrieData M) (p : ℕ) (ms : List M) : TrieData M :=
  t.modify p fun n => { n with middlewares := n.middlewares ++ ms.map (⟨p, ·⟩) }

/-- `handlers[method].emplace_back(action)` for each action. -/
def setHandlers (handlers : List (Text × List (ActionHolder M))) (method : Text)
    (actions : List (ActionHolder M)) : List (Text × List (ActionHolder M)) :=
  if actions = [] then handlers
  else (method, (handlers.lookup method).getD [] ++ actions) ::
    handlers.filter fun e => e.1 != method

/-- `Node::handle`. -/
def TrieData.handle (t : TrieData M) (p : ℕ) (method : Text) (ms : List M) :
    TrieData M × Except Failure Unit :=
  if checkMethod method = false then (t, .error (.exception (ascii "error method:" ++ method)))
  else if (t.deref p).findHandler method then
    (t, .error (.exception (ascii "[" ++ (t.deref p).pattern ++ ascii "] [" ++ method ++
      ascii "] handler exists yet!!!")))
  else (t.modify p fun n => { n with
    handlers := setHandlers n.handlers method (ms.map (⟨p, ·⟩)) }, .ok ())

theorem use_grows (p : ℕ) (ms : List M) (n : Node M) :
    n.Grows { n with middlewares := n.middlewares ++ ms.map (⟨p, ·⟩) } :=
  ⟨rfl, rfl, rfl, rfl, List.prefix_rfl, fun _ h => h, fun h => h, List.prefix_append ..,
    fun _ _ h _ => h⟩

/-- The entries under another key are not seen. -/
theorem lookup_filter_ne {A : Type} {entries : List (Text × A)} {key k : Text} (h : key ≠ k) :
    (entries.filter fun e => e.1 != k).lookup key = entries.lookup key := by
  induction entries with
  | nil => rfl
  | cons e entries ih =>
      obtain ⟨j, v⟩ := e
      by_cases hj : j = k
      · rw [List.filter_cons_of_neg (by simp [hj]), List.lookup_cons, ih, beq_false_of_ne (hj ▸ h)]
      · rw [List.filter_cons_of_pos (by simp [hj]), List.lookup_cons, List.lookup_cons, ih]

theorem lookup_setHandlers {handlers : List (Text × List (ActionHolder M))} {method m : Text}
    {actions hs : List (ActionHolder M)} (h : handlers.lookup m = some hs)
    (hne : m = method → hs = []) (hhs : hs ≠ []) :
    (setHandlers handlers method actions).lookup m = some hs := by
  have hm : m ≠ method := fun heq => hhs (hne heq)
  rw [setHandlers]
  split_ifs
  · exact h
  · rw [List.lookup_cons, beq_false_of_ne hm]
    exact (lookup_filter_ne hm).trans h

theorem handle_grows {t : TrieData M} {p : ℕ} {method : Text} (actions : List (ActionHolder M))
    (h : (t.deref p).findHandler method = false) (n : Node M) (hn : t.node? p = some n) :
    n.Grows { n with handlers := setHandlers n.handlers method actions } := by
  rw [deref_eq hn] at h
  refine ⟨rfl, rfl, rfl, rfl, List.prefix_rfl, fun _ h => h, fun h => h, List.prefix_rfl,
    fun m hs hlookup hhs => lookup_setHandlers hlookup (fun heq => ?_) hhs⟩
  subst heq
  rw [Node.findHandler, hlookup, Option.getD_some, decide_eq_false_iff_not] at h
  exact List.eq_nil_of_length_eq_zero (by omega)

theorem handle_spec {t : TrieData M} (ht : t.Ok) (p : ℕ) (method : Text) (ms : List M) :
    (t.handle p method ms).1.Ok ∧ t.Grows (t.handle p method ms).1 := by
  rw [TrieData.handle]
  split_ifs with hmethod hhandler
  · exact ⟨ht, .refl t⟩
  · exact ⟨ht, .refl t⟩
  · have hgrows := handle_grows (ms.map (⟨p, ·⟩)) (Bool.eq_false_iff.mpr hhandler)
    refine ⟨ht.modify hgrows fun n hn => ?_, grows_modify hgrows⟩
    have hl := ht.linked hn
    exact ⟨hl.child, hl.colon, hl.keys, hl.literal, hl.links, hl.owner⟩

theorem use_spec {t : TrieData M} (ht : t.Ok) (p : ℕ) (ms : List M) :
    (t.use p ms).Ok ∧ t.Grows (t.use p ms) := by
  refine ⟨ht.modify (fun n _ => use_grows p ms n) fun n hn => ?_,
    grows_modify fun n _ => use_grows p ms n⟩
  have hl := ht.linked hn
  refine ⟨hl.child, hl.colon, hl.keys, hl.literal, hl.links, fun a ha => ?_⟩
  rcases List.mem_append.mp ha with ha | ha
  · exact hl.owner a ha
  · obtain ⟨m, -, rfl⟩ := List.mem_map.mp ha
    rfl

end Node

/-! ### Registrations -/

/-- `Router`. -/
structure Router (ρ : Type) where
  trie : Trie (Middleware ρ)

variable (env : Env)

/-- `Router::use`; an empty path is the root. -/
def Router.use (r : Router ρ) (path : Text) (ms : List (Middleware ρ)) :
    Router ρ × Except Failure Unit :=
  if path = [] then (⟨⟨r.trie.toTrieData.use 0 ms, (use_spec r.trie.ok 0 ms).1⟩⟩, .ok ())
  else
    match r.trie.addNode env path with
    | (t, .error e) => (⟨t⟩, .error e)
    | (t, .ok p) => (⟨⟨t.toTrieData.use p ms, (use_spec t.ok p ms).1⟩⟩, .ok ())

/-- `Router::init_basic_method`. -/
def Router.initBasicMethod (r : Router ρ) (method path : Text) (hs : List (HttpHandler ρ)) :
    Router ρ × Except Failure Unit :=
  match r.trie.addNode env path with
  | (t, .error e) => (⟨t⟩, .error e)
  | (t, .ok p) =>
      let ms := hs.map HttpHandler.toMiddleware
      (⟨⟨(t.toTrieData.handle p method ms).1, (handle_spec t.ok p method ms).1⟩⟩,
        (t.toTrieData.handle p method ms).2)

/-- A registration, and what it leaves, whether it throws or not. -/
inductive Registration (ρ : Type)
  | use (path : Text) (ms : List (Middleware ρ))
  | initBasicMethod (method path : Text) (hs : List (HttpHandler ρ))

def Router.register (r : Router ρ) : Registration ρ → Router ρ
  | .use path ms => (r.use env path ms).1
  | .initBasicMethod method path hs => (r.initBasicMethod env method path hs).1

/-! ### A request -/

/-- What `Router::handle` leaves behind, and the actions that it has called. -/
structure Handled (ρ : Type) where
  request : Request
  rest : ρ
  err : SideError
  invoked : List (ActionHolder (Middleware ρ)) := []

/-- `compose_func`: the middlewares along the pipeline, and the handlers of the node with the
matched node's id. -/
def composeFunc {M : Type} (t : TrieData M) (node : ℕ) (pipeline : List ℕ) (method : Text) :
    List (ActionHolder M) :=
  pipeline.flatMap fun p =>
    (t.deref p).middlewares ++
      if (t.deref p).id = (t.deref node).id then ((t.deref p).handlers.lookup method).getD []
      else []

/-- The error after a call: what is thrown becomes an error. -/
def Effect.after (e : Effect ρ) : SideError :=
  match e.thrown with
  | none => e.err
  | some (.std what) => ⟨500, ascii "[HANDLER ERROR]" ++ what⟩
  | some .other => ⟨500, ascii "[HANDLER ERROR] unknown process request!"⟩

/-- The loop over the actions. -/
def runStack : List (ActionHolder (Middleware ρ)) → Request → ρ → SideError → Handled ρ
  | [], request, rest, err => { request, rest, err }
  | a :: stack, request, rest, err =>
      let e := a.func request rest err
      if e.after.empty then
        let h := runStack stack e.request e.rest e.after
        { h with invoked := a :: h.invoked }
      else { request := e.request, rest := e.rest, err := e.after, invoked := [a] }

/-- The `404` of `Router::handle`. -/
def notFound : SideError := ⟨404, ascii "404! not found."⟩

/-- `Router::handle`, from where the path has been matched. -/
def handleMatched (t : TrieData (Middleware ρ)) (matched : Matched) (request : Request) (rest : ρ)
    (err : SideError) : Handled ρ :=
  if matched.error then { request, rest, err := ⟨500, ascii "Internal error."⟩ }
  else
    match matched.node with
    | none => { request, rest, err := notFound }
    | some node =>
        if ((t.deref node).handlers.lookup request.method).getD [] = [] then
          { request, rest, err := notFound }
        else
          let stack := composeFunc t node matched.pipeline request.method
          if stack.isEmpty then { request, rest, err := notFound }
          else runStack stack { request with params := matched.params } rest err

/-- `Router::handle`. -/
def Router.handle (r : Router ρ) (garbage : Bool → ℕ → Option ℕ) (indeterminate : Option ℕ)
    (request : Request) (rest : ρ) (err : SideError) : Option (Handled ρ) :=
  if request.method = [] then some { request, rest, err := notFound }
  else
    (r.trie.toTrieData.matchPath env garbage indeterminate request.path).map fun matched =>
      handleMatched r.trie.toTrieData matched request rest err

/-! ### The actions of a path -/

section Chain

variable {M : Type} {t : TrieData M} {n : Node M} {p c : ℕ} {l l' : List ℕ} {env : Env}

/-- A link leads from the node to its child. -/
def Child (t : TrieData M) (p c : ℕ) : Prop :=
  (t.deref p).colonChild = some c ∨ c ∈ (t.deref p).children.map NodeHolder.val

/-- **The path from the root to a node.** -/
def PathTo (t : TrieData M) (c : ℕ) (l : List ℕ) : Prop :=
  ∃ nodes, l = 0 :: nodes ∧ (0 :: nodes).IsChain (Child t) ∧ (0 :: nodes).getLast? = some c

/-- The middlewares along a path, and the handlers at its end. -/
def actionsOf (t : TrieData M) (l : List ℕ) (node : ℕ) (method : Text) : List (ActionHolder M) :=
  l.flatMap (fun p => (t.deref p).middlewares) ++
    ((t.deref node).handlers.lookup method).getD []

theorem climb_mono {steps steps' : ℕ} (h : climb t steps p = some l) (hle : steps ≤ steps') :
    climb t steps' p = some l := by
  induction steps generalizing steps' p l with
  | zero => cases h
  | succ steps ih =>
      obtain ⟨steps', rfl⟩ : ∃ k, steps' = k + 1 := ⟨steps' - 1, by omega⟩
      rw [climb] at h ⊢
      cases hn : t.node? p with
      | none =>
          rw [hn] at h
          cases h
      | some n =>
          rw [hn] at h
          dsimp only at h ⊢
          cases hparent : n.parent with
          | none =>
              rw [hparent] at h
              exact h
          | some q =>
              rw [hparent] at h
              dsimp only at h ⊢
              obtain ⟨back, hback, rfl⟩ := Option.map_eq_some_iff.mp h
              rw [ih hback (by omega), Option.map_some]

/-- One step up from a child. -/
theorem climb_child {steps : ℕ} {back : List ℕ} (hn : t.node? c = some n)
    (hparent : n.parent = some p) (h : climb t steps p = some back) :
    climb t (steps + 1) c = some (c :: back) := by
  rw [climb, hn]
  dsimp only
  rw [hparent]
  dsimp only
  rw [h, Option.map_some]

theorem child_of_follow {d : Turn} {s : Text}
    (h : follow t.findChild (t.getColonNode env) d p s = some c) : Child t p c := by
  cases d with
  | first =>
      rw [follow, TrieData.findChild, Node.findChild, Option.map_eq_some_iff] at h
      obtain ⟨l, hl, rfl⟩ := h
      exact .inr (List.mem_map_of_mem (List.mem_of_find?_eq_some hl))
  | second =>
      rw [follow, TrieData.getColonNode, Option.filter_eq_some_iff] at h
      exact .inl h.1

/-- The parent of a child. -/
theorem Child.parent (ht : t.Ok) (h : Child t p c) :
    ∃ n, t.node? c = some n ∧ n.parent = some p := by
  cases hn : t.node? p with
  | none =>
      rw [Child, TrieData.deref, hn] at h
      simp at h
  | some n =>
      rw [Child, deref_eq hn] at h
      rcases h with hcolon | hmem
      · exact (ht.linked hn).colon c hcolon
      · obtain ⟨l, hl, rfl⟩ := List.mem_map.mp hmem
        exact (ht.linked hn).child l hl

/-- The climb from the end of a path goes back over its nodes. -/
theorem climb_of_chain {nodes back : List ℕ} {steps : ℕ} (ht : t.Ok)
    (hchain : (p :: nodes).IsChain (Child t)) (hlast : (p :: nodes).getLast? = some c)
    (hclimb : climb t steps p = some back) :
    climb t (steps + nodes.length) c = some (nodes.reverse ++ back) := by
  induction nodes generalizing p steps back with
  | nil =>
      obtain rfl : p = c := Option.some.inj hlast
      exact hclimb
  | cons q nodes ih =>
      obtain ⟨hlink, hrest⟩ := List.isChain_cons_cons.mp hchain
      obtain ⟨n, hn, hparent⟩ := hlink.parent ht
      rw [List.getLast?_cons_cons] at hlast
      have hq := ih hrest hlast (climb_child hn hparent hclimb)
      rw [List.length_cons, Nat.add_comm _ 1, ← Nat.add_assoc, hq, List.reverse_cons,
        List.append_assoc, List.singleton_append]

/-- **A node's pipeline is the path to it.** -/
theorem getPipeline_of_path (ht : t.Ok) (hpath : PathTo t c l) (h : getPipeline t c = some l') :
    l' = l := by
  obtain ⟨nodes, rfl, hchain, hlast⟩ := hpath
  obtain ⟨r, hr, hnone⟩ := ht.root
  have hroot : climb t 1 0 = some [0] := by
    rw [climb, hr]
    dsimp only
    rw [hnone]
  have hclimb := climb_of_chain ht hchain hlast hroot
  rw [getPipeline, Option.map_eq_some_iff] at h
  obtain ⟨back, hback, rfl⟩ := h
  -- both climbs reach the root
  have hmax := climb_mono hclimb (le_max_left _ t.nodes.length)
  rw [climb_mono hback (le_max_right _ _), Option.some.injEq] at hmax
  rw [hmax, List.reverse_append, List.reverse_reverse]
  rfl

/-- A path goes on along a link. -/
theorem PathTo.snoc (h : PathTo t p l) (hlink : Child t p c) : PathTo t c (l ++ [c]) := by
  obtain ⟨nodes, rfl, hchain, hlast⟩ := h
  refine ⟨nodes ++ [c], rfl, ?_, ?_⟩
  · rw [← List.cons_append]
    refine List.isChain_append.mpr ⟨hchain, .singleton c, fun x hx y hy => ?_⟩
    obtain rfl := Option.some.inj (hlast.symm.trans hx)
    obtain rfl := Option.some.inj hy
    exact hlink
  · rw [← List.cons_append, List.getLast?_concat]

theorem pathTo_root : PathTo t 0 [0] := ⟨[], rfl, .singleton 0, rfl⟩

/-- A walk goes along a path. -/
theorem pathTo_of_walk {w : List Text} {ds : List Turn} (h : PathTo t p l)
    (hwalk : Walk t.findChild (t.getColonNode env) p w ds c) : ∃ l', PathTo t c l' := by
  induction hwalk generalizing l with
  | nil p => exact ⟨l, h⟩
  | cons hstep _ ih => exact ih (h.snoc (child_of_follow hstep))

/-- **The pipeline of a node that a walk reaches is the path to it.** -/
theorem getPipeline_of_walk {w : List Text} {ds : List Turn} (ht : t.Ok)
    (hwalk : Walk t.findChild (t.getColonNode env) 0 w ds c) (h : getPipeline t c = some l) :
    PathTo t c l := by
  obtain ⟨l', hpath⟩ := pathTo_of_walk pathTo_root hwalk
  rwa [getPipeline_of_path ht hpath h]

/-- No link leads to the root. -/
theorem not_child_root (ht : t.Ok) : ¬ Child t p 0 := by
  intro h
  obtain ⟨n, hn, hparent⟩ := h.parent ht
  obtain ⟨r, hr, hnone⟩ := ht.root
  obtain rfl := Option.some.inj (hr.symm.trans hn)
  rw [hnone] at hparent
  cases hparent

/-- A path ends with a link, or at the root. -/
theorem PathTo.last (h : PathTo t c l) :
    c = 0 ∧ l = [0] ∨ ∃ q front, PathTo t q front ∧ Child t q c ∧ l = front ++ [c] := by
  obtain ⟨nodes, rfl, hchain, hlast⟩ := h
  rcases List.eq_nil_or_concat' nodes with rfl | ⟨front, d, rfl⟩
  · exact .inl ⟨(Option.some.inj hlast).symm, rfl⟩
  · rw [← List.cons_append, List.getLast?_concat] at hlast
    obtain rfl := Option.some.inj hlast
    rw [← List.cons_append] at hchain
    obtain ⟨hfront, -, hlink⟩ := List.isChain_append.mp hchain
    obtain ⟨q, hq⟩ : ∃ q, (0 :: front).getLast? = some q :=
      Option.isSome_iff_exists.mp (by simp)
    exact .inr ⟨q, 0 :: front, ⟨front, rfl, hfront, hq⟩, hlink q hq _ rfl, rfl⟩

/-- **There is one path to a node.** -/
theorem PathTo.eq (ht : t.Ok) (h : PathTo t c l) (h' : PathTo t c l') : l = l' := by
  induction l using List.reverseRecOn generalizing c l' with
  | nil =>
      obtain ⟨nodes, hnil, -⟩ := h
      cases hnil
  | append_singleton front d ih =>
      rcases h.last with ⟨rfl, hl⟩ | ⟨q, back, hpath, hlink, hl⟩
      · rcases h'.last with ⟨-, hl'⟩ | ⟨q', back', -, hlink', -⟩
        · rw [hl, hl']
        · exact absurd hlink' (not_child_root ht)
      · obtain ⟨rfl, -⟩ := List.append_inj' hl rfl
        rcases h'.last with ⟨rfl, -⟩ | ⟨q', back', hpath', hlink', rfl⟩
        · exact absurd hlink (not_child_root ht)
        · -- a node has one parent
          obtain ⟨n, hn, hparent⟩ := hlink.parent ht
          obtain ⟨n', hn', hparent'⟩ := hlink'.parent ht
          obtain rfl := Option.some.inj (hn.symm.trans hn')
          obtain rfl := Option.some.inj (hparent.symm.trans hparent')
          rw [hl, ih hpath hpath']

/-- The nodes of a path are there, and those before the last have smaller numbers. -/
theorem PathTo.le (ht : t.Ok) (h : PathTo t c l) :
    ∀ p ∈ l, p ≤ c ∧ ∃ n, t.node? p = some n := by
  induction l using List.reverseRecOn generalizing c with
  | nil => simp
  | append_singleton front d ih =>
      rcases h.last with ⟨rfl, hl⟩ | ⟨q, back, hpath, hlink, hl⟩
      · obtain ⟨r, hr, -⟩ := ht.root
        intro p hp
        rw [hl, List.mem_singleton] at hp
        exact ⟨hp.le, r, hp ▸ hr⟩
      · obtain ⟨rfl, -⟩ := List.append_inj' hl rfl
        obtain ⟨n, hn, hparent⟩ := hlink.parent ht
        have hc : c ≠ 0 := by
          rintro rfl
          exact not_child_root ht hlink
        obtain ⟨q', hq', hlt⟩ := ht.parent hn hc
        obtain rfl := Option.some.inj (hparent.symm.trans hq')
        intro p hp
        rw [hl] at hp
        rcases List.mem_append.mp hp with hp | hp
        · obtain ⟨hle, hnode⟩ := ih hpath p hp
          exact ⟨hle.trans hlt.le, hnode⟩
        · rw [List.mem_singleton] at hp
          exact ⟨hp.le, n, hp ▸ hn⟩

/-- A link stays while a trie grows. -/
theorem Child.grows {t' : TrieData M} (hg : t.Grows t') (h : Child t p c) : Child t' p c := by
  cases hn : t.node? p with
  | none =>
      rw [Child, TrieData.deref, hn] at h
      simp at h
  | some n =>
      obtain ⟨n', hn', hgrow⟩ := hg.node hn
      rw [Child, deref_eq hn] at h
      rw [Child, deref_eq hn']
      refine h.imp (hgrow.colonChild c) fun hmem => ?_
      obtain ⟨more, hmore⟩ := hgrow.children
      rw [← hmore, List.map_append]
      exact List.mem_append_left _ hmem

theorem PathTo.grows {t' : TrieData M} (hg : t.Grows t') (h : PathTo t c l) : PathTo t' c l := by
  obtain ⟨nodes, hl, hchain, hlast⟩ := h
  exact ⟨nodes, hl, hchain.imp fun _ _ hlink => hlink.grows hg, hlast⟩

/-- A path leads to a node. -/
theorem PathTo.node (ht : t.Ok) (h : PathTo t c l) : ∃ n, t.node? c = some n := by
  obtain ⟨nodes, rfl, hchain, hlast⟩ := h
  exact (PathTo.le ht ⟨nodes, rfl, hchain, hlast⟩ c (List.mem_of_getLast? hlast)).2

theorem PathTo.getPipeline (ht : t.Ok) (h : PathTo t c l) : getPipeline t c = some l := by
  obtain ⟨n, hn⟩ := h.node ht
  obtain ⟨l', hl'⟩ := getPipeline_isSome ht hn
  rw [hl', getPipeline_of_path ht h hl']

/-- **Ids single out the matched node**: what `compose_func` makes of the path to a node are its
actions. -/
theorem composeFunc_eq (ht : t.Ok) (h : PathTo t c l) (method : Text) :
    composeFunc t c l method = actionsOf t l c method := by
  rw [composeFunc, actionsOf]
  rcases h.last with ⟨rfl, rfl⟩ | ⟨q, front, hpath, hlink, rfl⟩
  · simp
  · have hother : ∀ p ∈ front, (t.deref p).id ≠ (t.deref c).id := by
      intro p hp hid
      obtain ⟨n, hn, hparent⟩ := hlink.parent ht
      obtain ⟨hle, m, hm⟩ := hpath.le ht p hp
      rw [deref_eq hn, deref_eq hm] at hid
      obtain rfl := ht.id_injective hm hn hid
      obtain ⟨q', hq', hlt⟩ := ht.parent hn (by rintro rfl; exact not_child_root ht hlink)
      obtain rfl := Option.some.inj (hparent.symm.trans hq')
      omega
    have hfront : front.flatMap (fun p => (t.deref p).middlewares ++
          if (t.deref p).id = (t.deref c).id then ((t.deref p).handlers.lookup method).getD []
          else []) = front.flatMap fun p => (t.deref p).middlewares := by
      refine List.flatMap_congr fun p hp => ?_
      rw [if_neg (hother p hp), List.append_nil]
    rw [List.flatMap_append, List.flatMap_append, hfront]
    simp

end Chain

/-! ### Up to the first error -/

/-- The error after a sequence of actions, each called on what the one before has left. -/
def errorAfter : List (ActionHolder (Middleware ρ)) → Request → ρ → SideError → SideError
  | [], _, _, err => err
  | a :: actions, request, rest, err =>
      let e := a.func request rest err
      errorAfter actions e.request e.rest e.after

/-- **Up to the first error**: what is invoked is the beginning of a list of actions that ends
with the first one after which there is an error, or the whole list. -/
structure Stops (actions invoked : List (ActionHolder (Middleware ρ))) (request : Request)
    (rest : ρ) (err : SideError) : Prop where
  initial : invoked <+: actions
  quiet : ∀ front, front <+: invoked → front ≠ [] → front ≠ invoked →
    (errorAfter front request rest err).empty = true
  last : invoked = actions ∨
    invoked ≠ [] ∧ (errorAfter invoked request rest err).empty = false

theorem runStack_stops (actions : List (ActionHolder (Middleware ρ))) (request : Request)
    (rest : ρ) (err : SideError) :
    Stops actions (runStack actions request rest err).invoked request rest err := by
  induction actions generalizing request rest err with
  | nil =>
      refine ⟨List.prefix_rfl, fun front hfront hne => ?_, .inl rfl⟩
      exact absurd (List.prefix_nil.mp hfront) hne
  | cons a actions ih =>
      rw [runStack]
      dsimp only
      split_ifs with hempty
      · obtain ⟨hinitial, hquiet, hlast⟩ := ih (a.func request rest err).request
          (a.func request rest err).rest (a.func request rest err).after
        refine ⟨List.cons_prefix_cons.mpr ⟨rfl, hinitial⟩, fun front hfront hne hshort => ?_, ?_⟩
        · obtain ⟨b, front, rfl⟩ := List.exists_cons_of_ne_nil hne
          obtain ⟨rfl, hfront⟩ := List.cons_prefix_cons.mp hfront
          rw [errorAfter]
          by_cases hnil : front = []
          · rw [hnil]
            exact hempty
          · exact hquiet front hfront hnil fun heq => hshort (by rw [heq])
        · rcases hlast with hall | ⟨-, herror⟩
          · exact .inl (by rw [hall])
          · exact .inr ⟨List.cons_ne_nil _ _, herror⟩
      · refine ⟨List.cons_prefix_cons.mpr ⟨rfl, List.nil_prefix⟩, fun front hfront hne hshort => ?_,
          .inr ⟨List.cons_ne_nil _ _, Bool.eq_false_iff.mpr hempty⟩⟩
        obtain ⟨b, front, rfl⟩ := List.exists_cons_of_ne_nil hne
        have hcons : b = a ∧ front <+: [] := List.cons_prefix_cons.mp hfront
        obtain ⟨rfl, hnil⟩ := hcons
        rw [List.prefix_nil.mp hnil] at hshort
        exact absurd rfl hshort

section Handle

variable (env : Env) (r : Router ρ) (garbage : Bool → ℕ → Option ℕ) (indeterminate : Option ℕ)
  (request : Request) (rest : ρ) (err : SideError)

/-- **The request is dispatched** to the handlers of a node. -/
def Dispatched (matched : Matched) (node : ℕ) : Prop :=
  request.method ≠ [] ∧
    r.trie.toTrieData.matchPath env garbage indeterminate request.path = some matched ∧
    matched.error = false ∧ matched.node = some node ∧
    ((r.trie.deref node).handlers.lookup request.method).getD [] ≠ []

/-- **In order, up to the first error**: a request that is dispatched runs the middlewares of the
path to the node and then its handlers, and one that is not runs nothing. -/
def Ordered : Prop :=
  ∃ h, r.handle env garbage indeterminate request rest err = some h ∧
    (∀ matched node, Dispatched env r garbage indeterminate request matched node →
      ∃ l, PathTo r.trie.toTrieData node l ∧
        Stops (actionsOf r.trie.toTrieData l node request.method) h.invoked
          { request with params := matched.params } rest err) ∧
    ((∀ matched node, ¬ Dispatched env r garbage indeterminate request matched node) →
      h.invoked = [])

variable {env r garbage indeterminate request rest err}

/-- What is not dispatched runs nothing. -/
theorem handleMatched_not_dispatched {t : TrieData (Middleware ρ)} {matched : Matched}
    (h : matched.error = false → ∀ node, matched.node = some node →
      ((t.deref node).handlers.lookup request.method).getD [] = []) :
    (handleMatched t matched request rest err).invoked = [] := by
  rw [handleMatched]
  split_ifs with herror
  · rfl
  · cases hnode : matched.node with
    | none => rfl
    | some node =>
        dsimp only
        rw [if_pos (h (Bool.eq_false_iff.mpr herror) node hnode)]

/-- What is dispatched runs the actions of the path to its node, up to the first error. -/
theorem handleMatched_stops {matched : Matched} {node : ℕ} (herror : matched.error = false)
    (hnode : matched.node = some node)
    (hhandlers : ((r.trie.deref node).handlers.lookup request.method).getD [] ≠ [])
    (hpath : PathTo r.trie.toTrieData node matched.pipeline) :
    Stops (actionsOf r.trie.toTrieData matched.pipeline node request.method)
      (handleMatched r.trie.toTrieData matched request rest err).invoked
      { request with params := matched.params } rest err := by
  have hactions : actionsOf r.trie.toTrieData matched.pipeline node request.method ≠ [] :=
    fun hnil => hhandlers (List.append_eq_nil_iff.mp hnil).2
  rw [handleMatched, herror, if_neg Bool.false_ne_true, hnode]
  dsimp only
  rw [if_neg hhandlers, composeFunc_eq r.trie.ok hpath, if_neg (by simpa using hactions)]
  exact runStack_stops _ _ _ _

theorem ordered_of_matched {matched : Matched} (hmethod : request.method ≠ [])
    (hmatch : r.trie.toTrieData.matchPath env garbage indeterminate request.path = some matched)
    (hpath : matched.error = false → ∀ node, matched.node = some node →
      PathTo r.trie.toTrieData node matched.pipeline) :
    Ordered env r garbage indeterminate request rest err := by
  refine ⟨_, by rw [Router.handle, if_neg hmethod, hmatch, Option.map_some], ?_, ?_⟩
  · rintro matched' node ⟨-, hmatch', herror, hnode, hhandlers⟩
    obtain rfl := Option.some.inj (hmatch.symm.trans hmatch')
    have hl := hpath herror node hnode
    exact ⟨matched.pipeline, hl, handleMatched_stops herror hnode hhandlers hl⟩
  · intro hnot
    refine handleMatched_not_dispatched fun herror node hnode => ?_
    by_contra hhandlers
    exact hnot matched node ⟨hmethod, hmatch, herror, hnode, hhandlers⟩

/-- A path that does not start with a slash is an error. -/
theorem matchPath_no_slash {M : Type} {t : TrieData M} {path : Text}
    (h : path.head? ≠ some slash) : ∃ matched,
      t.matchPath env garbage indeterminate path = some matched ∧ matched.error = true := by
  rw [TrieData.matchPath]
  by_cases hnil : path = []
  · rw [if_pos hnil]
    exact ⟨_, rfl, rfl⟩
  · rw [if_neg hnil, if_pos h]
    exact ⟨_, rfl, rfl⟩

/-- **Whatever the indeterminate pointers hold**, a request that is dispatched runs the actions of
the path to its node, up to the first error. -/
theorem handle_stops {matched : Matched} {node : ℕ} {l : List ℕ} {h : Handled ρ}
    (hdispatched : Dispatched env r garbage indeterminate request matched node)
    (hpath : PathTo r.trie.toTrieData node l)
    (hhandle : r.handle env garbage indeterminate request rest err = some h) :
    Stops (actionsOf r.trie.toTrieData l node request.method) h.invoked
      { request with params := matched.params } rest err := by
  obtain ⟨hmethod, hmatch, herror, hnode, hhandlers⟩ := hdispatched
  have hpipeline : matched.pipeline = l := by
    by_cases hhead : request.path.head? = some slash
    · obtain ⟨rest', hrest⟩ : ∃ rest', request.path = slash :: rest' := by
        cases hp : request.path with
        | nil =>
            rw [hp] at hhead
            cases hhead
        | cons c rest' =>
            rw [hp, List.head?_cons, Option.some.injEq] at hhead
            exact ⟨rest', by rw [hhead]⟩
      rw [hrest] at hmatch
      exact getPipeline_of_path r.trie.ok hpath (matchPath_pipeline r.trie.ok hmatch hnode)
    · obtain ⟨matched', hmatch', herror'⟩ := matchPath_no_slash hhead
      obtain rfl := Option.some.inj (hmatch.symm.trans hmatch')
      rw [herror] at herror'
      cases herror'
  subst hpipeline
  rw [Router.handle, if_neg hmethod, hmatch, Option.map_some, Option.some.injEq] at hhandle
  rw [← hhandle]
  exact handleMatched_stops herror hnode hhandlers hpath

/-- **No handler before the middlewares**: what is invoked behind the middlewares of the path
stands behind all of them, and none of them has left an error. -/
theorem Stops.behind {ms hs invoked : List (ActionHolder (Middleware ρ))}
    (h : Stops (ms ++ hs) invoked request rest err) (hlen : ms.length < invoked.length) :
    invoked.take ms.length = ms ∧ invoked.drop ms.length <+: hs ∧
      (ms ≠ [] → (errorAfter ms request rest err).empty = true) := by
  obtain ⟨more, hmore⟩ := h.initial
  have hms : ms <+: invoked :=
    List.prefix_of_prefix_length_le (List.prefix_append ms hs) h.initial hlen.le
  obtain ⟨tail, rfl⟩ := hms
  have htail : tail ++ more = hs := by
    rw [List.append_assoc] at hmore
    exact List.append_cancel_left hmore
  refine ⟨List.take_left, ?_, fun hne => h.quiet ms (List.prefix_append ms tail) hne ?_⟩
  · rw [List.drop_left]
    exact ⟨more, htail⟩
  · intro heq
    rw [← heq] at hlen
    exact absurd hlen (Nat.lt_irrefl _)

/-- **Whatever the indeterminate pointers of the match hold**, a request runs the actions of the
path in order exactly if no fallback is attempted. -/
theorem handle_ordered_iff (env : Env) (r : Router ρ) (request : Request) (rest : ρ)
    (err : SideError) :
    (∀ garbage indeterminate, Ordered env r garbage indeterminate request rest err) ↔
      request.method = [] ∨ request.path.head? ≠ some slash ∨
        r.trie.maxFallbackDepth.toNat = 0 ∨ Quiet env r.trie.toTrieData request.path := by
  constructor
  · intro h
    by_contra hnot
    rw [not_or, not_or, not_or, not_not] at hnot
    obtain ⟨hmethod, hhead, hlimit, hquiet⟩ := hnot
    obtain ⟨method, path, params⟩ := request
    obtain ⟨rest', rfl⟩ : ∃ rest', path = slash :: rest' := by
      cases path with
      | nil => cases hhead
      | cons c rest' => exact ⟨rest', by rw [Option.some.inj hhead]⟩
    obtain ⟨h, hhandle, -⟩ := h (fun _ _ => some r.trie.nodes.length) none
    rw [Router.handle, if_neg hmethod, matchPath_dangling hlimit hquiet] at hhandle
    cases hhandle
  · intro h garbage indeterminate
    by_cases hmethod : request.method = []
    · refine ⟨_, by rw [Router.handle, if_pos hmethod], ?_, fun _ => rfl⟩
      rintro matched node ⟨hne, -⟩
      exact absurd hmethod hne
    · by_cases hhead : request.path.head? = some slash
      · obtain ⟨method, path, params⟩ := request
        obtain ⟨rest', rfl⟩ : ∃ rest', path = slash :: rest' := by
          cases path with
          | nil => cases hhead
          | cons c rest' => exact ⟨rest', by rw [Option.some.inj hhead]⟩
        have hquiet := (h.resolve_left hmethod).resolve_left (not_not.mpr hhead)
        obtain ⟨matched, hmatch, hnode⟩ := @matchPath_quiet _ env r.trie.toTrieData garbage
          indeterminate rest' r.trie.ok hquiet
        refine ordered_of_matched hmethod hmatch fun herror node hn => ?_
        obtain ⟨⟨w, ds, hwalk, -⟩, hpipeline⟩ := hnode herror node hn
        exact getPipeline_of_walk r.trie.ok hwalk hpipeline
      · obtain ⟨matched, hmatch, herror⟩ := matchPath_no_slash hhead
        refine ordered_of_matched hmethod hmatch fun hfalse => ?_
        rw [herror] at hfalse
        cases hfalse

end Handle

/-- A router with the routes `/a/b` and `/:x/c`. -/
def twoRouteRouter : Router Unit :=
  (((⟨.new anyName⟩ : Router Unit).initBasicMethod anyName (ascii "GET") (ascii "/a/b")
    [fun request rest => (request, rest, none)]).1.initBasicMethod anyName (ascii "GET")
      (ascii "/:x/c") [fun request rest => (request, rest, none)]).1

/-- `/a/c` is found by a fallback only: the pipeline is read through what the indeterminate
pointer of `fallback_lookup` held, and what is invoked then is undefined. -/
theorem pipeline_of_dangling :
    ¬ Ordered anyName twoRouteRouter (fun _ _ => some 9) none
      { method := ascii "GET", path := ascii "/a/c" } () {} := by
  rintro ⟨h, hhandle, -⟩
  have hmatch : twoRouteRouter.trie.toTrieData.matchPath anyName (fun _ _ => some 9) none
      (ascii "/a/c") = none := by decide
  rw [Router.handle, if_neg (by decide), hmatch] at hhandle
  cases hhandle

end ArchNet.Routing

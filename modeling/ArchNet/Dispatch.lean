import ArchNet.TrieGrowth
import ArchNet.MatchAnswers

/-!
# What a Request Is Dispatched To

`Router::handle` of `http/router.cc` up to the handlers that it finds: the match of the path, the
error of its answer, and the lookup of the method at the node.

## Conventions

What a request is dispatched to is said whatever the indeterminate pointers of the match hold
(`Routed`): an error, or the node whose handlers are run. Where a fallback is attempted nothing is.

## Main definitions

* `Built`: the routers that registrations build.
* `dispatchOf`, `Routed`: what a request is dispatched to.

## Main results

* `Built.endpoint`: **only an endpoint has handlers**.
* `routed_iff`, `routed_ok_iff`, `handle_of_routed_error`: the dispatch, the answer for a path, and
  what `Router::handle` makes of it.
* `routed_found`, `routed_died`, `routed_missed`, `routed_second`: which attempt decides.
-/

open Bytes

namespace ArchNet.Routing

open Backtrack

/-- **The routers that registrations build.** -/
inductive Built {ρ : Type} (env : Env) : Router ρ → Prop
  | new (strictRoute : Bool) (segmentPattern : Text) (maxFallbackDepth : ℤ) :
      Built env ⟨.new env strictRoute segmentPattern maxFallbackDepth⟩
  | register {r : Router ρ} (h : Built env r) (reg : Registration ρ) :
      Built env (r.register env reg)

variable {M ρ : Type}

/-- What `Router::handle` makes of a match: the error of its answer, or the node whose handlers
run. -/
def dispatchOf (t : TrieData M) (method : Text) (node : Option ℕ) (error : Bool) :
    Except SideError ℕ :=
  if error then .error ⟨500, ascii "Internal error."⟩
  else
    match node with
    | none => .error notFound
    | some n =>
        if ((t.deref n).handlers.lookup method).getD [] = [] then .error notFound else .ok n

/-- **What a request is dispatched to**, whatever the indeterminate pointers hold. -/
def Routed (env : Env) (t : TrieData M) (request : Request) (d : Except SideError ℕ) : Prop :=
  if request.method = [] then d = .error notFound
  else ∀ garbage indeterminate, ∃ m,
    t.matchPath env garbage indeterminate request.path = some m ∧
      dispatchOf t request.method m.node m.error = d

/-- The first attempt finds nothing, and leaves it to a second one. -/
def Seconded (env : Env) (t : TrieData M) (path : Text) : Prop :=
  (descent env t (segmentsOfPath path)).1 = none ∧ (descent env t (segmentsOfPath path)).2 = [] ∧
    t.maxFallbackDepth.toNat ≠ 0 ∧ Retried t path

section Handlers

variable {env : Env} {t t' : TrieData M} {i p q : ℕ} {n : Node M} {labels : List Label}
  {marked : Option ℕ} {method : Text}

/-- Only an endpoint has handlers. -/
def HandlersAtEndpoints (t : TrieData M) : Prop :=
  ∀ i n, t.node? i = some n → ∀ method, (n.handlers.lookup method).getD [] ≠ [] →
    n.endpoint = true

/-- An insertion registers no handler. -/
theorem Graft.handlersAtEndpoints (g : Graft t t' q labels marked) (hgrows : t.Grows t')
    (h : HandlersAtEndpoints t) : HandlersAtEndpoints t' := by
  intro i n' hn' method hne
  rcases g.handlers hn' with hnil | ⟨n, hn, heq⟩
  · rw [hnil] at hne
    exact absurd rfl hne
  · rw [heq] at hne
    obtain ⟨n'', hn'', hgrow⟩ := hgrows.node hn
    obtain rfl := Option.some.inj (hn'.symm.trans hn'')
    exact hgrow.endpoint (h i n hn method hne)

theorem use_handlersAtEndpoints (p : ℕ) (ms : List M) (h : HandlersAtEndpoints t) :
    HandlersAtEndpoints (t.use p ms) := by
  intro i n' hn' method hne
  rw [TrieData.use, node?_modify, Option.map_eq_some_iff] at hn'
  obtain ⟨n, hn, rfl⟩ := hn'
  split_ifs at hne ⊢
  · exact h i n hn method hne
  · exact h i n hn method hne

/-- Handlers are registered at an endpoint. -/
theorem handle_handlersAtEndpoints (hp : ∀ n, t.node? p = some n → n.endpoint = true)
    (method : Text) (ms : List M) (h : HandlersAtEndpoints t) :
    HandlersAtEndpoints (t.handle p method ms).1 := by
  rw [TrieData.handle]
  split_ifs
  · exact h
  · exact h
  · intro i n' hn' m hne
    rw [node?_modify, Option.map_eq_some_iff] at hn'
    obtain ⟨n, hn, rfl⟩ := hn'
    split_ifs at hne ⊢ with hi
    · exact hp n (hi ▸ hn)
    · exact h i n hn m hne

/-- **A registration** keeps handlers at endpoints, whether it throws or not. -/
theorem register_handlersAtEndpoints {r : Router ρ} (reg : Registration ρ)
    (h : HandlersAtEndpoints r.trie.toTrieData) :
    HandlersAtEndpoints (r.register env reg).trie.toTrieData := by
  have hadd : ∀ path, HandlersAtEndpoints (r.trie.addNode env path).1.toTrieData := fun path =>
    (addNode_graft r.trie.ok env path).handlersAtEndpoints (r.trie.ok.addNode env path).grows h
  cases reg with
  | use path ms =>
      rw [Router.register, Router.use]
      split_ifs
      · exact use_handlersAtEndpoints 0 ms h
      · have hpath := hadd path
        cases hres : r.trie.addNode env path with
        | mk t res =>
            rw [hres] at hpath
            cases res with
            | error e => exact hpath
            | ok p => exact use_handlersAtEndpoints p ms hpath
  | initBasicMethod method path hs =>
      have hpath := hadd path
      have hresult := (r.trie.ok.addNode env path).result
      rw [Router.register, Router.initBasicMethod]
      cases hres : r.trie.addNode env path with
      | mk t res =>
          rw [hres] at hpath
          cases res with
          | error e => exact hpath
          | ok p =>
              -- `add_node` returns an endpoint
              refine handle_handlersAtEndpoints (fun n hn => ?_) method _ hpath
              have hok : (r.trie.toTrieData.addNode env path).2 = .ok p := congrArg Prod.snd hres
              have htrie : t.toTrieData = (r.trie.toTrieData.addNode env path).1 :=
                congrArg (fun x => x.1.toTrieData) hres.symm
              obtain ⟨-, e, he, hend⟩ := hresult p hok
              rw [htrie, he] at hn
              exact Option.some.inj hn ▸ hend

/-- **Only an endpoint has handlers**, in every router that registrations build. -/
theorem Built.endpoint {r : Router ρ} (h : Built env r) :
    HandlersAtEndpoints r.trie.toTrieData := by
  induction h with
  | new strictRoute segmentPattern maxFallbackDepth =>
      intro i n hn method hne
      cases i with
      | zero =>
          obtain rfl := Option.some.inj hn
          exact absurd rfl hne
      | succ i => cases hn
  | register _ reg ih => exact register_handlersAtEndpoints reg ih

end Handlers

/-! ### The dispatch -/

section Dispatch

variable {env : Env} {t : TrieData M} {request : Request} {rest : Text} {d d' : Except SideError ℕ}

/-- **The dispatch is the answer's**, where an answer is given. -/
theorem routed_iff (ht : t.Ok) (hmethod : request.method ≠ [])
    (hpath : request.path = slash :: rest) : Routed env t request d ↔
      Calm env t request.path ∧ dispatchOf t request.method (foundNode env t request.path)
        (foundError env t request.path) = d := by
  rw [Routed, if_neg hmethod, hpath]
  constructor
  · intro h
    have hcalm : Calm env t (slash :: rest) := by
      by_contra hnot
      obtain ⟨m, hm, -⟩ := h (fun _ _ => some t.nodes.length) none
      rw [matchPath_not_calm ht hnot] at hm
      cases hm
    obtain ⟨m, hm, hdispatch⟩ := h (fun _ _ => none) none
    obtain ⟨m', hm', hnode, herror, -⟩ :=
      @matchPath_calm M env t (fun _ _ => none) none rest ht hcalm
    obtain rfl := Option.some.inj (hm.symm.trans hm')
    exact ⟨hcalm, hnode ▸ herror ▸ hdispatch⟩
  · rintro ⟨hcalm, hdispatch⟩ garbage indeterminate
    obtain ⟨m, hm, hnode, herror, -⟩ := @matchPath_calm M env t garbage indeterminate rest ht hcalm
    exact ⟨m, hm, by rw [hnode, herror, hdispatch]⟩

theorem dispatchOf_error {method : Text} {node : Option ℕ} {error : Bool} (h : error = true) :
    dispatchOf t method node error = .error ⟨500, ascii "Internal error."⟩ := by
  unfold dispatchOf
  exact if_pos h

/-- A path that the first walk finds is dispatched by the handlers of its node. -/
theorem routed_found (ht : t.Ok) (hmethod : request.method ≠ [])
    (hpath : request.path = slash :: rest) {n : ℕ}
    (hfound : (descent env t (segmentsOfPath request.path)).1 = some n) :
    Routed env t request d ↔ dispatchOf t request.method (some n) false = d := by
  obtain ⟨hcalm, hnode, herror⟩ := calm_of_found hfound
  rw [routed_iff ht hmethod hpath, and_iff_right hcalm, hnode, herror]

/-- A request without a method, or with a path that does not start with `'/'`, is answered without
a look at the trie. -/
theorem routed_fixed (h : request.method = [] ∨ request.path.head? ≠ some slash) :
    Routed env t request d ↔
      if request.method = [] then d = .error notFound
      else d = .error ⟨500, ascii "Internal error."⟩ := by
  rw [Routed]
  split_ifs with hmethod
  · rfl
  · have hhead := h.resolve_left hmethod
    constructor
    · intro hall
      obtain ⟨m, hm, hdispatch⟩ := hall (fun _ _ => none) none
      obtain ⟨m', hm', herror⟩ := @matchPath_no_slash env (fun _ _ => none) none M t _ hhead
      obtain rfl := Option.some.inj (hm.symm.trans hm')
      rw [← hdispatch, dispatchOf_error herror]
    · rintro rfl garbage indeterminate
      obtain ⟨m, hm, herror⟩ := @matchPath_no_slash env garbage indeterminate M t _ hhead
      exact ⟨m, hm, dispatchOf_error herror⟩

/-- At most one thing is dispatched to. -/
theorem Routed.eq (ht : t.Ok) (hmethod : request.method ≠ [])
    (hpath : request.path = slash :: rest) (h : Routed env t request d)
    (h' : Routed env t request d') : d = d' :=
  ((routed_iff ht hmethod hpath).mp h).2.symm.trans ((routed_iff ht hmethod hpath).mp h').2

/-- The first attempt finds nothing, and no fallback is allowed. -/
theorem routed_died (ht : t.Ok) (hmethod : request.method ≠ [])
    (hpath : request.path = slash :: rest)
    (hnone : (descent env t (segmentsOfPath request.path)).1 = none)
    (hlimit : t.maxFallbackDepth.toNat = 0) :
    Routed env t request d ↔ d = .error ⟨500, ascii "Internal error."⟩ := by
  have hcalm : Calm env t request.path := ⟨fun _ => .inl hlimit, fun _ _ _ => .inl hlimit⟩
  have herror : foundError env t request.path = true := by
    rw [foundError, hnone, hlimit]
    rfl
  rw [routed_iff ht hmethod hpath, and_iff_right hcalm, dispatchOf_error herror]
  exact eq_comm

/-- The first attempt finds nothing, and there is no second one. -/
theorem routed_missed (ht : t.Ok) (hmethod : request.method ≠ [])
    (hpath : request.path = slash :: rest)
    (hnone : (descent env t (segmentsOfPath request.path)).1 = none)
    (hlimit : t.maxFallbackDepth.toNat ≠ 0)
    (hsettled : Settled env t (segmentsOfPath request.path)) (h : ¬ Retried t request.path) :
    Routed env t request d ↔ d = .error notFound := by
  have hcalm : Calm env t request.path := ⟨hsettled, fun _ hretried => absurd hretried h⟩
  rw [routed_iff ht hmethod hpath, and_iff_right hcalm, foundNode, foundError,
    if_neg fun hmore => h hmore.2, hnone, beq_false_of_ne hlimit, Bool.and_false]
  exact eq_comm

/-- The second attempt decides. -/
theorem routed_second (ht : t.Ok) (hmethod : request.method ≠ [])
    (hpath : request.path = slash :: rest) (h : Seconded env t request.path) :
    Routed env t request d ↔ Settled env t (segmentsOfPath request.path.dropLast) ∧
      dispatchOf t request.method (descent env t (segmentsOfPath request.path.dropLast)).1 false =
        d := by
  obtain ⟨hnone, hstack, hlimit, hretried⟩ := h
  have hsettled : Settled env t (segmentsOfPath request.path) :=
    settled_iff.mpr fun _ => .inr hstack
  have hcalm : Calm env t request.path ↔ Settled env t (segmentsOfPath request.path.dropLast) :=
    ⟨fun hcalm => hcalm.2 hnone hretried, fun hlater => ⟨hsettled, fun _ _ => hlater⟩⟩
  rw [routed_iff ht hmethod hpath, hcalm, foundNode, foundError, if_pos ⟨hnone, hretried⟩,
    beq_false_of_ne hlimit, Bool.and_false]

/-- A request is dispatched to the handlers of the node that is found. -/
theorem dispatchOf_eq_ok_iff {method : Text} {node : Option ℕ} {error : Bool} {n : ℕ} :
    dispatchOf t method node error = .ok n ↔
      error = false ∧ node = some n ∧ ((t.deref n).handlers.lookup method).getD [] ≠ [] := by
  unfold dispatchOf
  cases error with
  | true => simp
  | false =>
      cases node with
      | none => simp
      | some k =>
          by_cases hk : ((t.deref k).handlers.lookup method).getD [] = []
          · simp only [Bool.false_eq_true, if_false, hk, if_true, reduceCtorEq, true_and, false_iff,
              not_and, not_not]
            rintro ⟨⟩
            exact hk
          · simp only [Bool.false_eq_true, if_false, hk, Except.ok.injEq, true_and]
            constructor
            · rintro rfl
              exact ⟨rfl, hk⟩
            · rintro ⟨⟨⟩, -⟩
              rfl

/-- **The dispatch of a router** to handlers. -/
theorem routed_ok_iff {r : Router ρ} {n : ℕ} : Routed env r.trie.toTrieData request (.ok n) ↔
    ∀ garbage indeterminate, ∃ matched,
      Dispatched env r garbage indeterminate request matched n := by
  rw [Routed]
  split_ifs with hmethod
  · refine iff_of_false (by simp) fun h => ?_
    obtain ⟨matched, hdispatched⟩ := h (fun _ _ => none) none
    exact hdispatched.1 hmethod
  · refine forall_congr' fun garbage => forall_congr' fun indeterminate => exists_congr fun m => ?_
    rw [dispatchOf_eq_ok_iff, Dispatched, and_iff_right hmethod]

/-- **The answer of a router** to a request that is dispatched to no handlers. -/
theorem handle_of_routed_error {r : Router ρ} {e : SideError}
    (h : Routed env r.trie.toTrieData request (.error e)) (garbage : Bool → ℕ → Option ℕ)
    (indeterminate : Option ℕ) (state : ρ) (err : SideError) :
    r.handle env garbage indeterminate request state err =
      some { request, rest := state, err := e } := by
  rw [Routed] at h
  rw [Router.handle]
  split_ifs at h ⊢
  · rw [Except.error.inj h]
  · obtain ⟨m, hm, hdispatch⟩ := h garbage indeterminate
    rw [hm, Option.map_some, handleMatched]
    unfold dispatchOf at hdispatch
    split_ifs at hdispatch ⊢
    · rw [Except.error.inj hdispatch]
    · cases hnode : m.node with
      | none =>
          rw [hnode] at hdispatch
          dsimp only at hdispatch ⊢
          rw [Except.error.inj hdispatch]
      | some n =>
          rw [hnode] at hdispatch
          dsimp only at hdispatch ⊢
          split_ifs at hdispatch ⊢
          rw [Except.error.inj hdispatch]

end Dispatch

end ArchNet.Routing

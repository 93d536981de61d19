import ArchNet.Dispatch
import ArchNet.GraftAttempts
import ArchNet.RouteGroup

/-!
# Middlewares and Routing

`Router::use` of `http/router.cc` registers middlewares at the node of a path, which it inserts like
the path of a route, as an endpoint. A request that is matched with a node without handlers is
answered with `404`.

## Main definitions

* `Unmoved`, `Undisturbed`: a registration is nothing to an attempt, and to a request.
* `Inserted`: what a successful insertion leaves.

## Main results

* `Inserted.routed_before`: a request is sent to no other handlers.
* `Inserted.undisturbed_iff`: when a request is dispatched as before.
* `use_routing`: **what a registration of middlewares changes**.
-/

open Bytes

namespace ArchNet.Routing

open Backtrack

variable {M ρ : Type}

/-- **An attempt is not moved** by what grows: where it is captured the request was answered with
`404`; and otherwise it stands, or the fallbacks of the request were indeterminate already. -/
def Unmoved (env : Env) (t : TrieData M) (q : ℕ) (labels : List Label) (request : Request)
    (w : List Text) : Prop :=
  (Captured env t q labels w → Routed env t request (.error notFound)) ∧
    (¬ Captured env t q labels w → Stands env t q labels w ∨ ¬ Calm env t request.path)

/-- **A registration of middlewares does not disturb a request**: the path of the registration is
empty, the request is answered without a look at the trie, or none of the attempts that decide about
it is moved. -/
def Undisturbed (env : Env) (t : TrieData M) (pattern : Text) (request : Request) : Prop :=
  pattern = [] ∨ request.method = [] ∨ request.path.head? ≠ some slash ∨
    Unmoved env t (t.growth env pattern).1 (t.growth env pattern).2 request
        (segmentsOfPath request.path) ∧
      (¬ Captured env t (t.growth env pattern).1 (t.growth env pattern).2
          (segmentsOfPath request.path) →
        Stands env t (t.growth env pattern).1 (t.growth env pattern).2
          (segmentsOfPath request.path) → Seconded env t request.path →
        Unmoved env t (t.growth env pattern).1 (t.growth env pattern).2 request
          (segmentsOfPath request.path.dropLast))

/-! ### What a registration changes -/

section Registered

variable {env : Env} {t t' : TrieData M} {q n e : ℕ} {labels : List Label} {marked : Option ℕ}
  {request : Request} {w : List Text} {d : Except SideError ℕ} {m : Node M}

/-- Middlewares are nothing to a match. -/
theorem descent_use (p : ℕ) (ms : List M) : descent env (t.use p ms) w = descent env t w := by
  have hsame : ∀ i, ((t.use p ms).deref i).children = (t.deref i).children ∧
      ((t.use p ms).deref i).colonChild = (t.deref i).colonChild ∧
      ((t.use p ms).deref i).regex = (t.deref i).regex ∧
      ((t.use p ms).deref i).endpoint = (t.deref i).endpoint := by
    intro i
    rw [TrieData.deref, TrieData.deref, TrieData.use, node?_modify]
    cases t.node? i with
    | none => exact ⟨rfl, rfl, rfl, rfl⟩
    | some n =>
        rw [Option.map_some, Option.getD_some, Option.getD_some]
        split_ifs <;> exact ⟨rfl, rfl, rfl, rfl⟩
  have hchild : (t.use p ms).findChild = t.findChild := by
    funext i s
    rw [TrieData.findChild, TrieData.findChild, Node.findChild, Node.findChild, (hsame i).1]
  have hregex : ∀ c, ((t.use p ms).deref c).regex = (t.deref c).regex := fun c => (hsame c).2.2.1
  have hcolon : (t.use p ms).getColonNode env = t.getColonNode env := by
    funext i s
    simp only [TrieData.getColonNode, (hsame i).2.1, hregex]
  have hgoal : (fun i => ((t.use p ms).deref i).endpoint) = fun i => (t.deref i).endpoint :=
    funext fun i => (hsame i).2.2.2
  rw [descent, descent, hchild, hcolon, hgoal]

/-- The handlers and the middlewares of a node behind a registration. -/
theorem deref_use (p : ℕ) (ms : List M) (hm : t.node? n = some m) :
    ((t.use p ms).deref n).handlers = m.handlers ∧ ((t.use p ms).deref n).middlewares =
      m.middlewares ++ if n = p then ms.map (⟨p, ·⟩) else [] := by
  rw [TrieData.deref, TrieData.use, node?_modify, hm, Option.map_some, Option.getD_some]
  by_cases hp : p = n
  · rw [if_pos hp, if_pos hp.symm]
    exact ⟨rfl, rfl⟩
  · rw [if_neg hp, if_neg (Ne.symm hp), List.append_nil]
    exact ⟨rfl, rfl⟩

/-- Middlewares are nothing to the routing. -/
theorem routed_use (ht : t.Ok) (p : ℕ) (ms : List M) :
    Routed env (t.use p ms) request d ↔ Routed env t request d := by
  by_cases hfixed : request.method = [] ∨ request.path.head? ≠ some slash
  · rw [routed_fixed hfixed, routed_fixed hfixed]
  · rw [not_or, not_not] at hfixed
    obtain ⟨rest, hpath⟩ : ∃ rest, request.path = slash :: rest :=
      List.head?_eq_some_iff.mp hfixed.2
    have hsame : descent env (t.use p ms) = descent env t := funext fun w => descent_use p ms
    have hhandlers : ∀ n, ((t.use p ms).deref n).handlers = (t.deref n).handlers := by
      intro n
      cases hn : t.node? n with
      | none =>
          rw [TrieData.deref, TrieData.deref, TrieData.use, node?_modify, hn]
          rfl
      | some m => rw [(deref_use p ms hn).1, deref_eq hn]
    have hdispatch : dispatchOf (t.use p ms) = dispatchOf t := by
      funext method node error
      unfold dispatchOf
      simp only [hhandlers]
    have hcalm : Calm env (t.use p ms) request.path ↔ Calm env t request.path := by
      rw [Calm, Calm, settled_iff, settled_iff, settled_iff, settled_iff, hsame]
      exact Iff.rfl
    have hagain : Again env (t.use p ms) request.path ↔ Again env t request.path := by
      rw [Again, Again, hsame]
      exact Iff.rfl
    have hnode : foundNode env (t.use p ms) request.path = foundNode env t request.path := by
      rw [foundNode, foundNode, if_congr hagain rfl rfl, hsame]
    have herror : foundError env (t.use p ms) request.path = foundError env t request.path := by
      rw [foundError, foundError, hsame]
      rfl
    rw [routed_iff ht hfixed.1 hpath, routed_iff (use_spec ht p ms).1 hfixed.1 hpath, hdispatch,
      hcalm, hnode, herror]

end Registered

/-! ### What an insertion changes -/

/-- **What a successful insertion leaves**: the node that is marked is an endpoint. -/
structure Inserted (t t' : TrieData M) (q : ℕ) (labels : List Label) (e : ℕ) : Prop where
  graft : Graft t t' q labels (some e)
  before : t.Ok
  after : t'.Ok
  grows : t.Grows t'
  endpoint : (t'.deref e).endpoint = true

section Inserted

variable {env : Env} {t t' : TrieData M} {q n e : ℕ} {labels : List Label} {request : Request}
  {rest path method : Text} {w : List Text} {d d' : Except SideError ℕ}

theorem inserted_of_addNode (h : t.Ok) (hadd : t.addNode env path = (t', .ok e)) :
    Inserted t t' (t.growth env path).1 (t.growth env path).2 e := by
  have hgraft := addNode_graft h env path
  have hspec := h.addNode env path
  rw [hadd] at hgraft hspec
  obtain ⟨-, n, hn, hend⟩ := hspec.result e rfl
  exact ⟨hgraft, h, hspec.ok, hspec.grows, by rw [deref_eq hn, hend]⟩

namespace Inserted

theorem marked (h : Inserted t t' q labels e) :
    ∀ k, some e = some k → (t'.deref k).endpoint = true := by
  rintro k ⟨⟩
  exact h.endpoint

theorem captured (h : Inserted t t' q labels e) (hc : Captured env t q labels w) :
    (descent env t' w).1 = some e :=
  h.graft.captured h.before h.after h.grows h.endpoint hc

theorem stands (h : Inserted t t' q labels e) (hc : ¬ Captured env t q labels w)
    (hs : Stands env t q labels w) :
    (descent env t' w).1 = (descent env t w).1 ∧ (Settled env t' w ↔ Settled env t w) :=
  h.graft.stands h.before h.after h.grows h.marked (.inr hc) hs

theorem lost (h : Inserted t t' q labels e) (hc : ¬ Captured env t q labels w)
    (hs : ¬ Stands env t q labels w) : ¬ Settled env t' w ∨ t.maxFallbackDepth.toNat = 0 ∧
      (descent env t w).1 ≠ none ∧ (descent env t' w).1 = none :=
  h.graft.lost h.before h.after h.grows h.marked (.inr hc) hs

/-- **The node of the pattern has no handlers** where it captures an attempt. -/
theorem dispatchOf_captured (h : Inserted t t' q labels e) (hhandlers : HandlersAtEndpoints t)
    (hc : Captured env t q labels w) (method : Text) :
    dispatchOf t' method (some e) false = .error notFound := by
  unfold dispatchOf
  rw [if_neg Bool.false_ne_true]
  refine if_pos ?_
  cases hn' : t'.node? e with
  | none =>
      rw [TrieData.deref, hn']
      rfl
  | some n' =>
      rw [deref_eq hn']
      rcases h.graft.handlers hn' with hnil | ⟨n, hn, heq⟩
      · rw [hnil]
        rfl
      · rw [heq]
        by_contra hne
        have hend := hhandlers e n hn method hne
        by_cases hnil : labels = []
        · have hfalse := hc.2.1 hnil
          rw [← h.graft.stay hnil e rfl, deref_eq hn, hend] at hfalse
          cases hfalse
        · exact absurd (h.graft.new h.after hnil e rfl) (Nat.not_le.mpr (lt_of_node? hn))

/-- What was found has the handlers that it had. -/
theorem dispatchOf_descent (h : Inserted t t' q labels e) (method path : Text) :
    dispatchOf t' method (descent env t (segmentsOfPath path)).1 false =
      dispatchOf t method (descent env t (segmentsOfPath path)).1 false := by
  unfold dispatchOf
  cases hn : (descent env t (segmentsOfPath path)).1 with
  | none => rfl
  | some n =>
      obtain ⟨m, hm⟩ := (pathTo_way hn).1.node h.before
      dsimp only
      rw [(h.graft.deref hm).2.2.1]

/-- **The first attempt is captured**: the request is answered with `404`. -/
theorem routed_captured (h : Inserted t t' q labels e) (hhandlers : HandlersAtEndpoints t)
    (hmethod : request.method ≠ []) (hpath : request.path = slash :: rest)
    (hc : Captured env t q labels (segmentsOfPath request.path)) :
    Routed env t' request d ↔ d = .error notFound := by
  rw [routed_found h.after hmethod hpath (h.captured hc), h.dispatchOf_captured hhandlers hc]
  exact eq_comm

/-- **The first attempt is lost**: there is no dispatch any more, or the limit is reached. -/
theorem routed_lost (h : Inserted t t' q labels e)
    (hmethod : request.method ≠ []) (hpath : request.path = slash :: rest)
    (hc : ¬ Captured env t q labels (segmentsOfPath request.path))
    (hs : ¬ Stands env t q labels (segmentsOfPath request.path)) :
    (∀ d, ¬ Routed env t' request d) ∨ t.maxFallbackDepth.toNat = 0 ∧
      (∃ n, (descent env t (segmentsOfPath request.path)).1 = some n) ∧
        ∀ d, Routed env t' request d ↔ d = .error ⟨500, ascii "Internal error."⟩ := by
  rcases h.lost hc hs with hunsettled | ⟨hlimit, hsome, hnone⟩
  · exact .inl fun d hrouted => hunsettled ((routed_iff h.after hmethod hpath).mp hrouted).1.1
  · refine .inr ⟨hlimit, Option.ne_none_iff_exists'.mp hsome, fun d => ?_⟩
    exact routed_died h.after hmethod hpath hnone (h.grows.maxFallbackDepth ▸ hlimit)

/-- **The first attempt stands and decides**: the request is dispatched as before. -/
theorem routed_first (h : Inserted t t' q labels e)
    (hmethod : request.method ≠ []) (hpath : request.path = slash :: rest)
    (hc : ¬ Captured env t q labels (segmentsOfPath request.path))
    (hs : Stands env t q labels (segmentsOfPath request.path))
    (hfirst : ¬ Seconded env t request.path) :
    Routed env t' request d ↔ Routed env t request d := by
  obtain ⟨hsame, hsettled⟩ := h.stands hc hs
  have hdispatch := @dispatchOf_descent M env t t' q e labels h request.method
    request.path
  cases hd : (descent env t (segmentsOfPath request.path)).1 with
  | some n =>
      rw [hd] at hsame hdispatch
      rw [routed_found h.after hmethod hpath hsame, routed_found h.before hmethod hpath hd,
        hdispatch]
  | none =>
      rw [hd] at hsame
      have hdepth := h.grows.maxFallbackDepth
      by_cases hlimit : t.maxFallbackDepth.toNat = 0
      · rw [routed_died h.after hmethod hpath hsame (hdepth ▸ hlimit),
          routed_died h.before hmethod hpath hd hlimit]
      · by_cases hcalm : Settled env t (segmentsOfPath request.path)
        · have hstack := (settled_iff.mp hcalm hd).resolve_left hlimit
          have honce : ¬ Retried t request.path := fun hretried =>
            hfirst ⟨hd, hstack, hlimit, hretried⟩
          have honce' : ¬ Retried t' request.path := fun hretried =>
            honce ⟨h.grows.strictRoute.symm.trans hretried.1, hretried.2⟩
          rw [routed_missed h.after hmethod hpath hsame (hdepth ▸ hlimit) (hsettled.mpr hcalm)
            honce', routed_missed h.before hmethod hpath hd hlimit hcalm honce]
        · rw [routed_iff h.after hmethod hpath, routed_iff h.before hmethod hpath]
          exact iff_of_false (fun hr => hcalm (hsettled.mp hr.1.1)) fun hr => hcalm hr.1.1

/-- The first attempt stands and leaves it to a second one, as before. -/
theorem seconded (h : Inserted t t' q labels e)
    (hc : ¬ Captured env t q labels (segmentsOfPath path))
    (hs : Stands env t q labels (segmentsOfPath path)) (hsecond : Seconded env t path) :
    Seconded env t' path := by
  obtain ⟨hnone, hstack, hlimit, hretried⟩ := hsecond
  obtain ⟨hsame, hsettled⟩ := h.stands hc hs
  have hlimit' : t'.maxFallbackDepth.toNat ≠ 0 := h.grows.maxFallbackDepth ▸ hlimit
  have hnone' := hsame.trans hnone
  have hcalm' := hsettled.mpr (settled_iff.mpr fun _ => .inr hstack)
  exact ⟨hnone', (settled_iff.mp hcalm' hnone').resolve_left hlimit', hlimit',
    h.grows.strictRoute.trans hretried.1, hretried.2⟩

/-- **The second attempt decides**: it is captured, stands or is lost. -/
theorem routed_second (h : Inserted t t' q labels e) (hhandlers : HandlersAtEndpoints t)
    (hmethod : request.method ≠ []) (hpath : request.path = slash :: rest)
    (hsecond : Seconded env t request.path) (hsecond' : Seconded env t' request.path) :
    (Captured env t q labels (segmentsOfPath request.path.dropLast) →
        ∀ d, Routed env t' request d ↔ d = .error notFound) ∧
      (¬ Captured env t q labels (segmentsOfPath request.path.dropLast) →
        (Stands env t q labels (segmentsOfPath request.path.dropLast) →
          ∀ d, Routed env t' request d ↔ Routed env t request d) ∧
        (¬ Stands env t q labels (segmentsOfPath request.path.dropLast) →
          ∀ d, ¬ Routed env t' request d)) := by
  refine ⟨fun hc d => ?_, fun hc => ⟨fun hs d => ?_, fun hs d => ?_⟩⟩
  · have hfound := h.captured hc
    have hsettled : Settled env t' (segmentsOfPath request.path.dropLast) := by
      intro hnone
      rw [hfound] at hnone
      cases hnone
    rw [Routing.routed_second h.after hmethod hpath hsecond', and_iff_right hsettled, hfound,
      h.dispatchOf_captured hhandlers hc]
    exact eq_comm
  · obtain ⟨hsame, hsettled⟩ := h.stands hc hs
    rw [Routing.routed_second h.after hmethod hpath hsecond',
      Routing.routed_second h.before hmethod hpath hsecond, hsettled, hsame,
      h.dispatchOf_descent]
  · rw [Routing.routed_second h.after hmethod hpath hsecond']
    intro hrouted
    refine ((h.lost hc hs).resolve_right ?_) hrouted.1
    rintro ⟨hlimit, -⟩
    exact hsecond.2.2.1 hlimit

/-- **A request is sent to no other handlers.** -/
theorem routed_before (h : Inserted t t' q labels e) (hhandlers : HandlersAtEndpoints t)
    (hrouted : Routed env t' request (.ok n)) : Routed env t request (.ok n) := by
  by_cases hfixed : request.method = [] ∨ request.path.head? ≠ some slash
  · rw [routed_fixed hfixed] at hrouted ⊢
    exact hrouted
  rw [not_or, not_not] at hfixed
  obtain ⟨hmethod, hhead⟩ := hfixed
  obtain ⟨rest, hpath⟩ : ∃ rest, request.path = slash :: rest := List.head?_eq_some_iff.mp hhead
  by_cases hc : Captured env t q labels (segmentsOfPath request.path)
  · cases (h.routed_captured hhandlers hmethod hpath hc).mp hrouted
  by_cases hs : Stands env t q labels (segmentsOfPath request.path)
  · by_cases hsecond : Seconded env t request.path
    · obtain ⟨hcaptured, hrest⟩ := h.routed_second hhandlers hmethod hpath hsecond
        (h.seconded hc hs hsecond)
      by_cases hc₂ : Captured env t q labels (segmentsOfPath request.path.dropLast)
      · cases (hcaptured hc₂ _).mp hrouted
      by_cases hs₂ : Stands env t q labels (segmentsOfPath request.path.dropLast)
      · exact ((hrest hc₂).1 hs₂ _).mp hrouted
      · exact absurd hrouted ((hrest hc₂).2 hs₂ _)
    · exact (h.routed_first hmethod hpath hc hs hsecond).mp hrouted
  · rcases h.routed_lost hmethod hpath hc hs with hnever | ⟨-, -, hlimit⟩
    · exact absurd hrouted (hnever _)
    · cases (hlimit _).mp hrouted

/-- **Where a request is always answered alike** the dispatch is as before if it was that. -/
theorem same_iff_routed (hmethod : request.method ≠ []) (hpath : request.path = slash :: rest)
    (ht : t.Ok) (h : ∀ d, Routed env t' request d ↔ d = d') :
    (∀ d, Routed env t' request d ↔ Routed env t request d) ↔ Routed env t request d' := by
  constructor
  · exact fun hsame => (hsame d').mp ((h d').mpr rfl)
  · intro hrouted d
    rw [h d]
    constructor
    · rintro rfl
      exact hrouted
    · exact fun hd => hd.eq ht hmethod hpath hrouted

/-- **Where nothing is dispatched** that is as before if a fallback was attempted before. -/
theorem same_iff_not_calm (hmethod : request.method ≠ []) (hpath : request.path = slash :: rest)
    (ht : t.Ok) (h : ∀ d, ¬ Routed env t' request d) :
    (∀ d, Routed env t' request d ↔ Routed env t request d) ↔ ¬ Calm env t request.path := by
  constructor
  · intro hsame hcalm
    exact h _ ((hsame _).mpr ((routed_iff ht hmethod hpath).mpr ⟨hcalm, rfl⟩))
  · intro hnot d
    exact iff_of_false (h d) fun hrouted => hnot ((routed_iff ht hmethod hpath).mp hrouted).1

theorem unmoved_of_captured (hc : Captured env t q labels w) :
    Unmoved env t q labels request w ↔ Routed env t request (.error notFound) :=
  ⟨fun h => h.1 hc, fun h => ⟨fun _ => h, fun hnot => absurd hc hnot⟩⟩

theorem unmoved_of_stands (hc : ¬ Captured env t q labels w) (hs : Stands env t q labels w) :
    Unmoved env t q labels request w :=
  ⟨fun h => absurd h hc, fun _ => .inl hs⟩

theorem unmoved_of_lost (hc : ¬ Captured env t q labels w) (hs : ¬ Stands env t q labels w) :
    Unmoved env t q labels request w ↔ ¬ Calm env t request.path :=
  ⟨fun h => (h.2 hc).resolve_left hs,
    fun h => ⟨fun hcaptured => absurd hcaptured hc, fun _ => .inr h⟩⟩

/-- **A request is dispatched as before** exactly if the attempts that decide are not moved. -/
theorem same_iff_unmoved (h : Inserted t t' q labels e) (hhandlers : HandlersAtEndpoints t)
    (hmethod : request.method ≠ []) (hpath : request.path = slash :: rest) :
    (∀ d, Routed env t' request d ↔ Routed env t request d) ↔
      Unmoved env t q labels request (segmentsOfPath request.path) ∧
        (¬ Captured env t q labels (segmentsOfPath request.path) →
          Stands env t q labels (segmentsOfPath request.path) → Seconded env t request.path →
            Unmoved env t q labels request (segmentsOfPath request.path.dropLast)) := by
  by_cases hc : Captured env t q labels (segmentsOfPath request.path)
  · rw [unmoved_of_captured hc, and_iff_left fun hnot => absurd hc hnot]
    exact same_iff_routed hmethod hpath h.before fun d =>
      h.routed_captured hhandlers hmethod hpath hc
  by_cases hs : Stands env t q labels (segmentsOfPath request.path)
  · rw [and_iff_right (unmoved_of_stands hc hs), forall_prop_of_true hc, forall_prop_of_true hs]
    by_cases hsecond : Seconded env t request.path
    · rw [forall_prop_of_true hsecond]
      obtain ⟨hcaptured, hrest⟩ := h.routed_second hhandlers hmethod hpath hsecond
        (h.seconded hc hs hsecond)
      by_cases hc₂ : Captured env t q labels (segmentsOfPath request.path.dropLast)
      · rw [unmoved_of_captured hc₂]
        exact same_iff_routed hmethod hpath h.before (hcaptured hc₂)
      by_cases hs₂ : Stands env t q labels (segmentsOfPath request.path.dropLast)
      · exact iff_of_true ((hrest hc₂).1 hs₂) (unmoved_of_stands hc₂ hs₂)
      · rw [unmoved_of_lost hc₂ hs₂]
        exact same_iff_not_calm hmethod hpath h.before ((hrest hc₂).2 hs₂)
    · exact iff_of_true (fun d => h.routed_first hmethod hpath hc hs hsecond) fun hnot =>
        absurd hnot hsecond
  · rw [unmoved_of_lost hc hs, and_iff_left fun _ hnot => absurd hnot hs]
    rcases h.routed_lost hmethod hpath hc hs with hnever | ⟨hlimit, ⟨n, hn⟩, hdied⟩
    · exact same_iff_not_calm hmethod hpath h.before hnever
    · -- the limit is reached where a node was found
      refine iff_of_false (fun hsame => ?_) fun hnot => hnot (calm_of_found hn).1
      have hrouted := (same_iff_routed hmethod hpath h.before hdied).mp hsame
      rw [routed_found h.before hmethod hpath hn] at hrouted
      unfold dispatchOf at hrouted
      rw [if_neg Bool.false_ne_true] at hrouted
      dsimp only at hrouted
      split_ifs at hrouted
      cases hrouted

/-- The same, for all requests. -/
theorem undisturbed_iff (h : Inserted t t' (t.growth env path).1 (t.growth env path).2 e)
    (hhandlers : HandlersAtEndpoints t) (hne : path ≠ []) :
    (∀ d, Routed env t' request d ↔ Routed env t request d) ↔ Undisturbed env t path request := by
  rw [Undisturbed, or_iff_right hne]
  by_cases hfixed : request.method = [] ∨ request.path.head? ≠ some slash
  · rw [← or_assoc]
    refine iff_of_true (fun d => ?_) (.inl hfixed)
    rw [routed_fixed hfixed, routed_fixed hfixed]
  · rw [← or_assoc, or_iff_right hfixed]
    rw [not_or, not_not] at hfixed
    obtain ⟨rest, hpath⟩ : ∃ rest, request.path = slash :: rest :=
      List.head?_eq_some_iff.mp hfixed.2
    exact h.same_iff_unmoved hhandlers hfixed.1 hpath

end Inserted

end Inserted

section Use

variable {env : Env} {t t' : TrieData M} {n : ℕ}

/-- **The actions of a path behind a registration** that keeps the nodes. -/
theorem actionsOf_use {l : List ℕ} (ht : t.Ok) (hpath : PathTo t n l)
    (hnode : ∀ {p m}, t.node? p = some m →
      ∃ m', t'.node? p = some m' ∧ m'.handlers = m.handlers ∧ m'.middlewares = m.middlewares)
    (e : ℕ) (ms : List M) (method : Text) : actionsOf (t'.use e ms) l n method =
      l.flatMap (fun p => (t.deref p).middlewares ++ if p = e then ms.map (⟨e, ·⟩) else []) ++
        ((t.deref n).handlers.lookup method).getD [] := by
  obtain ⟨m, hm⟩ := hpath.node ht
  obtain ⟨m', hm', hhandlers, -⟩ := hnode hm
  rw [actionsOf, (deref_use e ms hm').1, hhandlers, deref_eq hm]
  refine congrArg (· ++ _) (List.flatMap_congr fun p hp => ?_)
  obtain ⟨-, mp, hmp⟩ := hpath.le ht p hp
  obtain ⟨mp', hmp', -, hmiddlewares⟩ := hnode hmp
  rw [(deref_use e ms hmp').2, hmiddlewares, deref_eq hmp]

variable {r : Router ρ} {path : Text} {ms : List (Middleware ρ)}

/-- **A registration of middlewares** inserts its path, unless that is empty. -/
theorem use_inserts (h : (r.use env path ms).2 = .ok ()) :
    ∃ e, UsedAt (r.use env path ms).1.trie.toTrieData path e ∧
      ∃ t : TrieData (Middleware ρ), (r.use env path ms).1.trie.toTrieData = t.use e ms ∧
        (path = [] ∧ t = r.trie.toTrieData ∨
          path ≠ [] ∧ r.trie.toTrieData.addNode env path = (t, .ok e)) := by
  rw [Router.use] at h ⊢
  split_ifs at h ⊢ with hnil
  · exact ⟨0, .inl ⟨hnil, rfl⟩, r.trie.toTrieData, rfl, .inl ⟨hnil, rfl⟩⟩
  · have hentries := @addNode_result ρ env r path
    have hadd : ∀ t res, r.trie.addNode env path = (t, res) →
        r.trie.toTrieData.addNode env path = (t.toTrieData, res) := by
      intro t res heq
      have htrie : (r.trie.toTrieData.addNode env path).1 = t.toTrieData :=
        congrArg (fun x => x.1.toTrieData) heq
      have hresult : (r.trie.toTrieData.addNode env path).2 = res := congrArg Prod.snd heq
      exact Prod.ext htrie hresult
    cases hres : r.trie.addNode env path with
    | mk t res =>
        rw [hres] at h hentries
        cases res with
        | error e => cases h
        | ok e =>
            exact ⟨e, .inr ⟨hnil, (hentries e rfl).1.grows (use_spec t.ok e ms).2⟩, t.toTrieData,
              rfl, .inr ⟨hnil, hadd t _ hres⟩⟩

/-- **What a registration of middlewares changes**: it sends no request to other handlers; it leaves
the dispatch of a request as it was exactly if it does not disturb it; and it adds the middlewares
to the actions of the nodes at or below its own, behind the middlewares of that node, and to no
others. -/
theorem use_routing (hbuilt : Built env r) (huse : (r.use env path ms).2 = .ok ()) :
    (∀ request n, Routed env (r.use env path ms).1.trie.toTrieData request (.ok n) →
      Routed env r.trie.toTrieData request (.ok n)) ∧
    (∀ request, (∀ d, Routed env (r.use env path ms).1.trie.toTrieData request d ↔
      Routed env r.trie.toTrieData request d) ↔
        Undisturbed env r.trie.toTrieData path request) ∧
    ∃ e, UsedAt (r.use env path ms).1.trie.toTrieData path e ∧
      ∀ n l method, PathTo r.trie.toTrieData n l →
        PathTo (r.use env path ms).1.trie.toTrieData n l ∧
        actionsOf (r.use env path ms).1.trie.toTrieData l n method =
          l.flatMap (fun p => (r.trie.deref p).middlewares ++
            if p = e then ms.map (⟨e, ·⟩) else []) ++
              ((r.trie.deref n).handlers.lookup method).getD [] := by
  obtain ⟨e, hused, t', huse', hinserts⟩ := use_inserts huse
  have hgrows := @use_grows_router ρ env r path ms
  rcases hinserts with ⟨hnil, rfl⟩ | ⟨hne, hadd⟩
  · refine ⟨fun request n h => ?_, fun request => ?_, e, hused, fun n l method hpath => ?_⟩
    · rw [huse'] at h
      exact (routed_use r.trie.ok e ms).mp h
    · refine iff_of_true (fun d => ?_) (.inl hnil)
      rw [huse']
      exact routed_use r.trie.ok e ms
    · refine ⟨hpath.grows hgrows, ?_⟩
      rw [huse']
      exact actionsOf_use r.trie.ok hpath (fun hm => ⟨_, hm, rfl, rfl⟩) e ms method
  · have hinserted := inserted_of_addNode r.trie.ok hadd
    refine ⟨fun request n h => ?_, fun request => ?_, e, hused, fun n l method hpath => ?_⟩
    · rw [huse', routed_use hinserted.after] at h
      exact hinserted.routed_before hbuilt.endpoint h
    · rw [huse']
      simp only [routed_use hinserted.after]
      exact hinserted.undisturbed_iff hbuilt.endpoint hne
    · refine ⟨hpath.grows hgrows, ?_⟩
      rw [huse']
      refine actionsOf_use r.trie.ok hpath (fun hm => ?_) e ms method
      obtain ⟨m', hm', -, -, hsame⟩ := hinserted.graft.node hm
      exact ⟨m', hm', hsame⟩

end Use

/-- A router with the route `GET /:id`. -/
def oneParamRouter : Router Unit :=
  (⟨.new anyName⟩ : Router Unit).register anyName
    (.initBasicMethod (ascii "GET") (ascii "/:id") [fun request rest => (request, rest, none)])

theorem oneParamRouter_built : Built anyName oneParamRouter :=
  .register (.new true _ _) _

/-- A middleware that leaves everything as it is. -/
def idle : Middleware Unit := fun request rest err => { request, rest, err }

/-- Middlewares at `/a` leave `GET /b` to the handlers of `/:id`. -/
theorem use_other_path : Routed anyName (oneParamRouter.use anyName (ascii "/a")
    [idle]).1.trie.toTrieData { method := ascii "GET", path := ascii "/b" } (.ok 1) := by
  have hgrowth : oneParamRouter.trie.toTrieData.growth anyName (ascii "/a") =
      (0, [.literal (ascii "a")]) := by decide
  have hfound : (descent anyName oneParamRouter.trie.toTrieData
      (segmentsOfPath (ascii "/b"))).1 = some 1 := by decide
  have hother : ∀ s ∈ segmentsOfPath (ascii "/b"),
      (Label.literal (ascii "a")).accepts anyName s = false := by decide
  have hundisturbed : Undisturbed anyName oneParamRouter.trie.toTrieData (ascii "/a")
      { method := ascii "GET", path := ascii "/b" } := by
    refine .inr (.inr (.inr ?_))
    rw [hgrowth]
    refine ⟨⟨?_, fun _ => .inl ?_⟩, fun _ _ hsecond => ?_⟩
    · rintro ⟨⟨u, v, hsplit, -, htaken⟩, -⟩
      cases v with
      | nil => cases htaken
      | cons s v =>
          rw [spurTaken, hother s (hsplit ▸ List.mem_append_right u List.mem_cons_self)] at htaken
          cases htaken
    · rintro l ls hl ⟨s, ⟨u, v, hsplit, -⟩, hacc, -⟩
      obtain ⟨rfl, -⟩ := List.cons.inj hl
      rw [hother s (hsplit ▸ List.mem_append_right u List.mem_cons_self)] at hacc
      cases hacc
    · rw [hsecond.1] at hfound
      cases hfound
  have hpath : ascii "/b" = slash :: ascii "b" := by decide
  have hmethod : ascii "GET" ≠ [] := by decide
  refine (((use_routing oneParamRouter_built rfl).2.1 _).mpr hundisturbed _).mpr ?_
  exact (routed_found oneParamRouter.trie.ok hmethod hpath hfound).mpr (by decide)

/-- **A shadowed route.** `GET /a` is dispatched to the handlers of `/:id`. With middlewares at `/a`
it is answered with `404`. -/
theorem use_shadows : Built anyName oneParamRouter ∧
    (oneParamRouter.use anyName (ascii "/a") [idle]).2 = .ok () ∧
    Routed anyName oneParamRouter.trie.toTrieData
      { method := ascii "GET", path := ascii "/a" } (.ok 1) ∧
    Routed anyName (oneParamRouter.use anyName (ascii "/a") [idle]).1.trie.toTrieData
      { method := ascii "GET", path := ascii "/a" } (.error notFound) := by
  have hpath : ascii "/a" = slash :: ascii "a" := by decide
  have hmethod : ascii "GET" ≠ [] := by decide
  have hbefore : (descent anyName oneParamRouter.trie.toTrieData
      (segmentsOfPath (ascii "/a"))).1 = some 1 := by decide
  have hafter : (descent anyName (oneParamRouter.use anyName (ascii "/a") [idle]).1.trie.toTrieData
      (segmentsOfPath (ascii "/a"))).1 = some 2 := by decide
  refine ⟨oneParamRouter_built, rfl, ?_, ?_⟩
  · exact (routed_found oneParamRouter.trie.ok hmethod hpath hbefore).mpr (by decide)
  · exact (routed_found (oneParamRouter.use anyName (ascii "/a") [idle]).1.trie.ok hmethod hpath
      hafter).mpr (by decide)

end ArchNet.Routing

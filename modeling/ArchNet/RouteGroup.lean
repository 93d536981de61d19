import ArchNet.Router
import Mathlib.Data.List.TakeWhile

/-!
# Route Groups

`RouteGroup` of `http/group.h`, `RestFul::use(RouteGroup&)` of `http/restful.h`, and `slim_path`
of `utils/util.h`.

The middlewares of a group are registered under its prefix as it stands, its APIs under the prefix
and their own path joined and slimmed. Both are split into segments by `add_node`, and the APIs
are guarded by the middlewares if the segments of the prefix are the beginning of theirs.

## Main definitions

* `slimPath`, `RouteGroup`, `apiPath`, `Router.useGroup`: the code.
* `collapse`: runs of slashes become one, which is what `slim_path` and the refusal of `//` by
  `add_node` amount to.
* `Covers`: the condition on the prefix and the path of an API.
* `Guarded`: the handlers of an API run behind all middlewares of the group.

## Main results

* `segments_join`: the segments of an API behind those of the prefix.
* `group_guarded_iff`: **a request that reaches a handler of the group has run the group's
  middlewares, now and after any later registration, exactly if the prefix covers the API**.
-/

open Bytes

namespace ArchNet.Routing

/-! ### Paths -/

/-- `str.find("//")` and `str.replace(pos, 2, "/")`. -/
def replaceSlashes : Text → Option Text
  | a :: b :: s =>
      if a = slash ∧ b = slash then some (slash :: s) else (replaceSlashes (b :: s)).map (a :: ·)
  | _ => none

/-- `string_replace_recursion(str, "//", "/")`: every replacement makes the text shorter. -/
def stringReplaceRecursion : ℕ → Text → Text
  | 0, s => s
  | steps + 1, s =>
      match replaceSlashes s with
      | none => s
      | some s' => stringReplaceRecursion steps s'

/-- `slim_path`. -/
def slimPath (path : Text) : Text := stringReplaceRecursion path.length path

/-- Every run of slashes as one slash. -/
def collapse : Text → Text
  | a :: b :: s => if a = slash ∧ b = slash then collapse (b :: s) else a :: collapse (b :: s)
  | s => s

section Paths

variable {q s s' w y : Text} {a : UInt8}

/-- A slash in front of a slash is dropped. -/
theorem collapse_cons : collapse (a :: s) =
    if a = slash ∧ (collapse s).head? = some slash then collapse s else a :: collapse s := by
  cases s with
  | nil => simp [collapse]
  | cons b s =>
      have hhead : ∀ (b : UInt8) (s : Text), (collapse (b :: s)).head? = some b := by
        intro b s
        induction s generalizing b with
        | nil => rfl
        | cons c s ih =>
            rw [collapse]
            split_ifs with h
            · rw [ih c, h.1, h.2]
            · rfl
      rw [collapse, hhead]
      simp only [Option.some.injEq]

/-- The first character stays. -/
theorem head?_collapse : (collapse s).head? = s.head? := by
  cases s with
  | nil => rfl
  | cons a s =>
      rw [collapse_cons]
      split_ifs with h
      · rw [h.2, h.1]
        rfl
      · rfl

/-- Where two slashes stand. -/
theorem infix_cons_iff : ascii "//" <:+: a :: s ↔
    a = slash ∧ s.head? = some slash ∨ ascii "//" <:+: s := by
  have hslashes : ascii "//" = [slash, slash] := by decide
  rw [List.infix_cons_iff, hslashes, List.cons_prefix_cons]
  refine or_congr_left (and_congr eq_comm ?_)
  cases s with
  | nil => simp
  | cons b s => simp [List.cons_prefix_cons, eq_comm]

/-- A text without two slashes in a row stays as it is. -/
theorem collapse_eq_self (h : ¬ ascii "//" <:+: s) : collapse s = s := by
  induction s with
  | nil => rfl
  | cons a s ih =>
      rw [infix_cons_iff, not_or] at h
      rw [collapse_cons, ih h.2, if_neg h.1]

/-- A replacement collapses to the same text, with the white space taken out. -/
theorem collapse_replaceSlashes (h : replaceSlashes s = some s') :
    collapse (trimPathSpaces s') = collapse (trimPathSpaces s) := by
  induction s generalizing s' with
  | nil => cases h
  | cons a s ih =>
      cases s with
      | nil => cases h
      | cons b s =>
          rw [replaceSlashes] at h
          split_ifs at h with hab
          · obtain rfl := Option.some.inj h
            obtain ⟨rfl, rfl⟩ := hab
            have hkeep : ∀ s, trimPathSpaces (slash :: s) = slash :: trimPathSpaces s := fun s =>
              List.filter_cons_of_pos (by decide)
            rw [hkeep, hkeep, hkeep, collapse, if_pos ⟨rfl, rfl⟩]
          · obtain ⟨s'', hs, rfl⟩ := Option.map_eq_some_iff.mp h
            have hrest := ih hs
            by_cases hspace : isspace a = true
            · rw [trimPathSpaces, trimPathSpaces, List.filter_cons_of_neg (by simp [hspace]),
                List.filter_cons_of_neg (by simp [hspace])]
              exact hrest
            · rw [trimPathSpaces, trimPathSpaces, List.filter_cons_of_pos (by simp [hspace]),
                List.filter_cons_of_pos (by simp [hspace]), collapse_cons, collapse_cons]
              rw [trimPathSpaces, trimPathSpaces] at hrest
              rw [hrest]

/-- `slim_path` changes nothing that collapsing does not. -/
theorem collapse_slimPath :
    collapse (trimPathSpaces (slimPath s)) = collapse (trimPathSpaces s) := by
  rw [slimPath]
  generalize s.length = steps
  induction steps generalizing s with
  | zero => rfl
  | succ steps ih =>
      rw [stringReplaceRecursion]
      cases hs : replaceSlashes s with
      | none => rfl
      | some s' => rw [ih, collapse_replaceSlashes hs]

/-- A text that neither has two slashes in a row nor ends with one stays in front. -/
theorem collapse_append (hq : ¬ ascii "//" <:+: q) (hlast : q.getLast? ≠ some slash) :
    collapse (q ++ w) = q ++ collapse w := by
  induction q with
  | nil => rfl
  | cons a q ih =>
      rw [infix_cons_iff, not_or] at hq
      rw [List.cons_append, collapse_cons]
      cases q with
      | nil =>
          have ha : a ≠ slash := fun h => hlast (by rw [h]; rfl)
          rw [if_neg fun h => ha h.1]
          rfl
      | cons b q =>
          rw [List.getLast?_cons_cons] at hlast
          have hnot : ¬ (a = slash ∧ (b :: q ++ collapse w).head? = some slash) := hq.1
          rw [ih hq.2 hlast, if_neg hnot]
          rfl

/-- A slash stands for all slashes in front. -/
theorem collapse_slash : collapse (slash :: y) = slash :: collapse (trimPrefixSlash y) := by
  induction y with
  | nil => rfl
  | cons b y ih =>
      rw [collapse, trimPrefixSlash]
      by_cases hb : b = slash
      · rw [if_pos ⟨rfl, hb⟩, hb, ih, List.dropWhile_cons_of_pos (by simp)]
        rfl
      · rw [if_neg fun h => hb h.2, List.dropWhile_cons_of_neg (by simpa using hb)]

/-- The slashes in front are those of the first part. -/
theorem trimPrefixSlash_append (hq : q ≠ []) (hlast : q.getLast? ≠ some slash) :
    trimPrefixSlash (q ++ w) = trimPrefixSlash q ++ w := by
  have hne : trimPrefixSlash q ≠ [] := by
    intro hnil
    have hall := List.dropWhile_eq_nil_iff.mp hnil
    have hmem := hall _ (List.getLast_mem hq)
    rw [beq_iff_eq] at hmem
    exact hlast (by rw [List.getLast?_eq_some_getLast hq, hmem])
  rw [trimPrefixSlash] at hne
  rw [trimPrefixSlash, List.dropWhile_append, if_neg (by simpa using hne)]
  rfl

/-- What is left behind the slashes in front does not start with one. -/
theorem trimPrefixSlash_collapse (y : Text) :
    trimPrefixSlash (collapse (trimPrefixSlash y)) = collapse (trimPrefixSlash y) := by
  have hhead : (collapse (trimPrefixSlash y)).head? ≠ some slash := by
    rw [head?_collapse]
    intro h
    have hnot := List.head?_dropWhile_not (· == slash) y
    rw [trimPrefixSlash] at h
    rw [h] at hnot
    simp at hnot
  cases hz : collapse (trimPrefixSlash y) with
  | nil => rfl
  | cons c z =>
      rw [hz, List.head?_cons, ne_eq, Option.some.injEq] at hhead
      exact List.dropWhile_cons_of_neg (by simpa using hhead)

/-- **A bare path**: without its white space it is empty or ends with a slash, so that the last
segment that `add_node` makes of it is empty. -/
def Bare (path : Text) : Prop :=
  trimPathSpaces path = [] ∨ (trimPathSpaces path).getLast? = some slash

instance (path : Text) : Decidable (Bare path) :=
  inferInstanceAs (Decidable (_ ∨ _))

/-- The text of an API's own path behind the slash: white space out, runs of slashes as one. -/
def tailOf (path : Text) : Text := collapse (trimPrefixSlash (trimPathSpaces path))

/-- **The segments of an API** are those of the prefix, without an empty one at their end, and
those of the API's own path. -/
theorem segments_join {front path : Text} (hfront : ¬ ascii "//" <:+: trimPathSpaces front)
    (hjoin : ¬ ascii "//" <:+: trimPathSpaces (slimPath (front ++ slash :: path))) :
    ∃ segments, (Bare front → segmentsOf front = segments ++ [[]]) ∧
      (¬ Bare front → segmentsOf front = segments) ∧
      segmentsOf (slimPath (front ++ slash :: path)) =
        segments ++ stringSplit slash (tailOf path) := by
  have hspaces : trimPathSpaces (front ++ slash :: path) =
      trimPathSpaces front ++ slash :: trimPathSpaces path := by
    rw [trimPathSpaces, List.filter_append, List.filter_cons_of_pos (by decide)]
    rfl
  have hslim : trimPathSpaces (slimPath (front ++ slash :: path)) =
      collapse (trimPathSpaces front ++ slash :: trimPathSpaces path) := by
    rw [← hspaces, ← collapse_slimPath, collapse_eq_self hjoin]
  unfold Bare segmentsOf tailOf
  rw [hslim]
  generalize trimPathSpaces front = q at hfront
  generalize trimPathSpaces path = y
  -- the prefix without a slash at its end
  have hstem : ∀ q₀ : Text, ¬ ascii "//" <:+: q₀ → q₀.getLast? ≠ some slash → ∀ tail : Text,
      collapse tail = slash :: collapse (trimPrefixSlash y) →
      stringSplit slash (trimPrefixSlash (collapse (q₀ ++ tail))) =
        (if q₀ = [] then [] else stringSplit slash (trimPrefixSlash q₀)) ++
          stringSplit slash (collapse (trimPrefixSlash y)) := by
    intro q₀ hq₀ hlast tail htail
    rw [collapse_append hq₀ hlast, htail]
    split_ifs with hnil
    · rw [hnil, List.nil_append, trimPrefixSlash, List.dropWhile_cons_of_pos (by simp)]
      exact congrArg _ (trimPrefixSlash_collapse y)
    · rw [trimPrefixSlash_append hnil hlast, stringSplit_append]
  by_cases hend : q.getLast? = some slash
  · obtain ⟨q₀, rfl⟩ := List.getLast?_eq_some_iff.mp hend
    have hq₀ : ¬ ascii "//" <:+: q₀ := fun h => hfront (h.trans (List.infix_append [] q₀ [slash]))
    have hlast : q₀.getLast? ≠ some slash := by
      intro h
      obtain ⟨q₁, rfl⟩ := List.getLast?_eq_some_iff.mp h
      refine hfront ⟨q₁, [], ?_⟩
      have hslashes : ascii "//" = [slash, slash] := by decide
      rw [hslashes]
      simp
    refine ⟨if q₀ = [] then [] else stringSplit slash (trimPrefixSlash q₀), fun _ => ?_,
      fun hbare => absurd (.inr hend) hbare, ?_⟩
    · split_ifs with hnil
      · rw [hnil]
        rfl
      · rw [trimPrefixSlash_append hnil hlast, stringSplit_append]
        rfl
    · rw [List.append_assoc, List.singleton_append]
      refine hstem q₀ hq₀ hlast _ ?_
      rw [collapse, if_pos ⟨rfl, rfl⟩, collapse_slash]
  · refine ⟨if q = [] then [] else stringSplit slash (trimPrefixSlash q), fun hbare => ?_,
      fun hbare => ?_, hstem q hfront hend _ collapse_slash⟩
    · have hnil := hbare.resolve_right hend
      rw [if_pos hnil, hnil]
      rfl
    · rw [not_or] at hbare
      rw [if_neg hbare.1]

end Paths

/-! ### The code -/

variable {ρ : Type}

/-- `RouteGroupMethodHolder`. -/
structure RouteGroupMethodHolder (ρ : Type) where
  method : Text
  path : Text
  ms : List (HttpHandler ρ)

/-- `RouteGroup`. -/
structure RouteGroup (ρ : Type) where
  prefixPath : Text
  middleWares : List (Middleware ρ) := []
  apis : List (RouteGroupMethodHolder ρ) := []

namespace RouteGroup

/-- `_set_api`. -/
def setApi (g : RouteGroup ρ) (method path : Text) (ms : List (HttpHandler ρ)) :
    Except Failure (RouteGroup ρ) :=
  if checkMethod method = false then
    .error (.exception (ascii "method:" ++ method ++ ascii " is not supported!"))
  else .ok { g with apis := g.apis ++ [⟨method, path, ms⟩] }

/-- `get`. -/
def get (g : RouteGroup ρ) := g.setApi (ascii "GET")

/-- `post`. -/
def post (g : RouteGroup ρ) := g.setApi (ascii "POST")

/-- `del`. -/
def del (g : RouteGroup ρ) := g.setApi (ascii "DELETE")

/-- `put`. -/
def put (g : RouteGroup ρ) := g.setApi (ascii "PUT")

end RouteGroup

/-- The path under which an API is registered; an empty one is the root of the group. -/
def apiPath (front path : Text) : Text :=
  if path = [] then front else slimPath (front ++ slash :: path)

/-- The loop over the APIs in `RestFul::use`. -/
def Router.useApis (env : Env) (r : Router ρ) (front : Text) :
    List (RouteGroupMethodHolder ρ) → Router ρ × Except Failure Unit
  | [] => (r, .ok ())
  | api :: apis =>
      match r.initBasicMethod env api.method (apiPath front api.path) api.ms with
      | (r, .error e) => (r, .error e)
      | (r, .ok _) => r.useApis env front apis

/-- `RestFul::use(RouteGroup&)`. -/
def Router.useGroup (env : Env) (r : Router ρ) (g : RouteGroup ρ) :
    Router ρ × Except Failure Unit :=
  if g.middleWares = [] then r.useApis env g.prefixPath g.apis
  else
    match r.use env g.prefixPath g.middleWares with
    | (r, .error e) => (r, .error e)
    | (r, .ok _) => r.useApis env g.prefixPath g.apis

/-! ### What an installation leaves -/

section Installed

variable {env : Env} {r : Router ρ} {path : Text}

/-- The trie of a router only grows. -/
abbrev Router.Grows (r r' : Router ρ) : Prop := r.trie.toTrieData.Grows r'.trie.toTrieData

/-- A path with two slashes is refused. -/
theorem addNode_no_slashes {t : Trie (Middleware ρ)} {p : ℕ} (h : (t.addNode env path).2 = .ok p) :
    ¬ ascii "//" <:+: trimPathSpaces path := by
  intro hslashes
  rw [Trie.addNode] at h
  dsimp only [TrieData.addNode] at h
  rw [if_pos hslashes] at h
  cases h

/-- What `add_node` returns is the entry of the pattern. -/
theorem addNode_result (p : ℕ) (h : (r.trie.addNode env path).2 = .ok p) :
    (r.trie.addNode env path).1.toTrieData.Entries 0 (segmentsOf path) p ∧
      (∃ n, (r.trie.addNode env path).1.toTrieData.node? p = some n) ∧
      ¬ ascii "//" <:+: trimPathSpaces path := by
  obtain ⟨hentries, n, hn, -⟩ := (r.trie.ok.addNode env path).result p h
  exact ⟨hentries, ⟨n, hn⟩, addNode_no_slashes h⟩

/-- The node at which the middlewares of a path are registered. -/
def UsedAt (t : TrieData (Middleware ρ)) (path : Text) (p : ℕ) : Prop :=
  path = [] ∧ p = 0 ∨ path ≠ [] ∧ t.Entries 0 (segmentsOf path) p

/-- In the grown trie the path is used at the same node. -/
theorem UsedAt.grows {t t' : TrieData (Middleware ρ)} {p : ℕ} (h : UsedAt t path p)
    (hg : t.Grows t') : UsedAt t' path p := by
  rcases h with h | ⟨hne, hentries⟩
  · exact .inl h
  · exact .inr ⟨hne, hentries.grows hg⟩

/-- A path is used at one node. -/
theorem UsedAt.eq {t : TrieData (Middleware ρ)} {p p' : ℕ} (h : UsedAt t path p)
    (h' : UsedAt t path p') : p = p' := by
  rcases h with ⟨hnil, rfl⟩ | ⟨hne, hentries⟩
  · rcases h' with ⟨-, rfl⟩ | ⟨hne, -⟩
    · rfl
    · exact absurd hnil hne
  · rcases h' with ⟨hnil, -⟩ | ⟨-, hentries'⟩
    · exact absurd hnil hne
    · exact hentries.eq hentries'

/-- `use` lets the router grow. -/
theorem use_grows_router (ms : List (Middleware ρ)) : r.Grows (r.use env path ms).1 := by
  rw [Router.use]
  split_ifs with hnil
  · exact (use_spec r.trie.ok 0 ms).2
  · have hadd : r.trie.toTrieData.Grows (r.trie.addNode env path).1.toTrieData :=
      (r.trie.ok.addNode env path).grows
    cases hres : r.trie.addNode env path with
    | mk t res =>
        rw [hres] at hadd
        cases res with
        | error e => exact hadd
        | ok p => exact hadd.trans (use_spec t.ok p ms).2

/-- **Middlewares are where their path leads to.** -/
theorem use_installed {ms : List (Middleware ρ)} (h : (r.use env path ms).2 = .ok ()) :
    ∃ p n, UsedAt (r.use env path ms).1.trie.toTrieData path p ∧
      (r.use env path ms).1.trie.toTrieData.node? p = some n ∧
      (ms.map fun m => (⟨p, m⟩ : ActionHolder (Middleware ρ))).Sublist n.middlewares ∧
      (path ≠ [] → ¬ ascii "//" <:+: trimPathSpaces path) := by
  have hmiddlewares : ∀ (t : Trie (Middleware ρ)) (p : ℕ) (n : Node (Middleware ρ)),
      t.node? p = some n → ∃ n', (t.toTrieData.use p ms).node? p = some n' ∧
        (ms.map fun m => (⟨p, m⟩ : ActionHolder (Middleware ρ))).Sublist n'.middlewares := by
    intro t p n hn
    refine ⟨_, by rw [TrieData.use, node?_modify, hn, Option.map_some, if_pos rfl], ?_⟩
    exact List.sublist_append_right _ _
  rw [Router.use] at h ⊢
  split_ifs at h ⊢ with hnil
  · obtain ⟨root, hroot, -⟩ := r.trie.ok.root
    obtain ⟨n, hn, hsub⟩ := hmiddlewares r.trie 0 root hroot
    exact ⟨0, n, .inl ⟨hnil, rfl⟩, hn, hsub, fun hne => absurd hnil hne⟩
  · have hadd := @addNode_result ρ env r path
    cases hres : r.trie.addNode env path with
    | mk t res =>
        rw [hres] at h hadd
        cases res with
        | error e => cases h
        | ok p =>
            obtain ⟨hentries, ⟨n, hn⟩, hslashes⟩ := hadd p rfl
            obtain ⟨n', hn', hsub⟩ := hmiddlewares t p n hn
            exact ⟨p, n', .inr ⟨hnil, hentries.grows (use_spec t.ok p ms).2⟩, hn', hsub,
              fun _ => hslashes⟩

/-- A registration for a method lets the router grow. -/
theorem initBasicMethod_grows (method : Text) (hs : List (HttpHandler ρ)) :
    r.Grows (r.initBasicMethod env method path hs).1 := by
  have hadd : r.trie.toTrieData.Grows (r.trie.addNode env path).1.toTrieData :=
    (r.trie.ok.addNode env path).grows
  rw [Router.initBasicMethod]
  cases hres : r.trie.addNode env path with
  | mk t res =>
      rw [hres] at hadd
      cases res with
      | error e => exact hadd
      | ok p => exact hadd.trans (handle_spec t.ok p method (hs.map HttpHandler.toMiddleware)).2

/-- **Handlers are where their path leads to.** -/
theorem initBasicMethod_installed {method : Text} {hs : List (HttpHandler ρ)}
    (h : (r.initBasicMethod env method path hs).2 = .ok ()) :
    (∃ p, (r.initBasicMethod env method path hs).1.trie.toTrieData.Entries 0 (segmentsOf path) p) ∧
      ¬ ascii "//" <:+: trimPathSpaces path := by
  have hadd := @addNode_result ρ env r path
  rw [Router.initBasicMethod] at h ⊢
  cases hres : r.trie.addNode env path with
  | mk t res =>
      rw [hres] at h hadd
      cases res with
      | error e => cases h
      | ok p =>
          obtain ⟨hentries, -, hslashes⟩ := hadd p rfl
          exact ⟨⟨p, hentries.grows (handle_spec t.ok p method _).2⟩, hslashes⟩

/-- **The routes of a group** are installed one by one. -/
theorem useApis_installed {front : Text} {apis : List (RouteGroupMethodHolder ρ)}
    (h : (r.useApis env front apis).2 = .ok ()) :
    r.Grows (r.useApis env front apis).1 ∧ ∀ api ∈ apis,
      (∃ p, (r.useApis env front apis).1.trie.toTrieData.Entries 0
        (segmentsOf (apiPath front api.path)) p) ∧
      ¬ ascii "//" <:+: trimPathSpaces (apiPath front api.path) := by
  induction apis generalizing r with
  | nil => exact ⟨.refl _, by simp⟩
  | cons api apis ih =>
      have hgrows := @initBasicMethod_grows ρ env r (apiPath front api.path) api.method api.ms
      have hinstalled := @initBasicMethod_installed ρ env r (apiPath front api.path) api.method
        api.ms
      rw [Router.useApis] at h ⊢
      cases hres : r.initBasicMethod env api.method (apiPath front api.path) api.ms with
      | mk r' res =>
          rw [hres] at h hgrows hinstalled
          cases res with
          | error e => cases h
          | ok _ =>
              obtain ⟨hrest, hall⟩ := ih h
              refine ⟨hgrows.trans hrest, fun api' hmem => ?_⟩
              rcases List.mem_cons.mp hmem with rfl | hmem
              · obtain ⟨⟨p, hentries⟩, hslashes⟩ := hinstalled rfl
                exact ⟨⟨p, hentries.grows hrest⟩, hslashes⟩
              · exact hall api' hmem

/-- Every registration lets the router grow. -/
theorem register_grows (reg : Registration ρ) : r.Grows (r.register env reg) := by
  cases reg with
  | use path ms => exact use_grows_router ms
  | initBasicMethod method path hs => exact initBasicMethod_grows method hs

/-- Later registrations. -/
theorem registerAll_grows (regs : List (Registration ρ)) :
    r.Grows (regs.foldl (Router.register env) r) := by
  induction regs generalizing r with
  | nil => exact .refl _
  | cons reg regs ih => exact (register_grows reg).trans ih

end Installed

/-! ### The guard -/

/-- **The prefix covers a path**: the prefix is the root, or it is not bare, or the path consists
of slashes (up to its first NUL, and without white space). -/
def Covers (front path : Text) : Prop :=
  front = [] ∨ ¬ Bare front ∨ ∀ c ∈ cstr (trimPathSpaces path), c = slash

section Guard

variable (env : Env) (r : Router ρ) (g : RouteGroup ρ) (api : RouteGroupMethodHolder ρ)
  (garbage : Bool → ℕ → Option ℕ) (indeterminate : Option ℕ) (request : Request) (rest : ρ)
  (err : SideError)

/-- The number of middlewares on a path. -/
def middlewareCount (r : Router ρ) (l : List ℕ) : ℕ :=
  (l.flatMap fun p => (r.trie.deref p).middlewares).length

/-- **The request has reached a handler of the API**: it is dispatched to the API's node and
method, and one of the API's handlers has been invoked, behind the middlewares of the path. -/
structure HandlerRun (h : Handled ρ) (l : List ℕ) (matched : Matched) (node : ℕ) : Prop where
  handled : r.handle env garbage indeterminate request rest err = some h
  dispatched : Dispatched env r garbage indeterminate request matched node
  entries : r.trie.toTrieData.Entries 0 (segmentsOf (apiPath g.prefixPath api.path)) node
  method : request.method = api.method
  path : PathTo r.trie.toTrieData node l
  invoked : ∃ f ∈ api.ms, ⟨node, f.toMiddleware⟩ ∈ h.invoked.drop (middlewareCount r l)

/-- **All middlewares of the group have been invoked**, in order, among the middlewares of the
path. -/
def MiddlewaresFirst (h : Handled ρ) (l : List ℕ) : Prop :=
  g.middleWares = [] ∨ ∃ p, UsedAt r.trie.toTrieData g.prefixPath p ∧
    (g.middleWares.map fun m => (⟨p, m⟩ : ActionHolder (Middleware ρ))).Sublist
      (h.invoked.take (middlewareCount r l))

/-- **A guarded group**: every request that reaches one of its handlers has first run its
middlewares. -/
def Guarded : Prop :=
  ∀ api ∈ g.apis, ∀ garbage indeterminate request rest err h l matched node,
    HandlerRun env r g api garbage indeterminate request rest err h l matched node →
      MiddlewaresFirst r g h l

end Guard

section Cover

variable {env : Env} {r : Router ρ} {g : RouteGroup ρ} {api : RouteGroupMethodHolder ρ}
  {t : TrieData (Middleware ρ)} {p c e : ℕ} {l : List ℕ} {s : Text} {segments : List Text}

/-- A C string is empty exactly if the text is, or begins with NUL. -/
theorem cstr_eq_nil_iff : cstr s = [] ↔ s.head? = none ∨ s.head? = some 0 := by
  cases s with
  | nil => simp [cstr]
  | cons a s =>
      rw [cstr, List.takeWhile_cons]
      by_cases ha : a = 0 <;> simp [ha]

/-- Only slashes: nothing is left behind them. -/
theorem onlySlashes_iff : (∀ c ∈ cstr s, c = slash) ↔ cstr (trimPrefixSlash s) = [] := by
  induction s with
  | nil => simp [cstr, trimPrefixSlash]
  | cons a s ih =>
      by_cases ha : a = slash
      · have hcons : cstr (slash :: s) = slash :: cstr s := List.takeWhile_cons_of_pos (by decide)
        rw [ha, trimPrefixSlash, List.dropWhile_cons_of_pos (by simp), hcons, List.forall_mem_cons]
        exact ⟨fun h => ih.mp h.2, fun h => ⟨rfl, ih.mpr h⟩⟩
      · rw [trimPrefixSlash, List.dropWhile_cons_of_neg (by simpa using ha), cstr_eq_nil_iff]
        by_cases hzero : a = 0
        · simp [cstr, hzero]
        · simp [cstr, hzero, ha]

/-- The first segment of a text that does not start with a slash. -/
theorem stringSplit_head (hs : s.head? ≠ some slash) :
    ∃ f more, stringSplit slash s = f :: more ∧ f.head? = s.head? := by
  cases s with
  | nil => exact ⟨[], [], rfl, rfl⟩
  | cons a s =>
      have ha : a ≠ slash := fun h => hs (by rw [h]; rfl)
      rw [stringSplit, if_neg ha]
      cases stringSplit slash s with
      | nil => exact ⟨[a], [], rfl, rfl⟩
      | cons piece pieces => exact ⟨a :: piece, pieces, rfl, rfl⟩

/-- The first segment of an API's own path: it is the empty name exactly if the path consists of
slashes. -/
theorem tailOf_head (path : Text) : ∃ f more, stringSplit slash (tailOf path) = f :: more ∧
    f.head? ≠ some slash ∧
      (cstr f = [] ↔ ∀ c ∈ cstr (trimPathSpaces path), c = slash) := by
  have hhead : (tailOf path).head? = (trimPrefixSlash (trimPathSpaces path)).head? :=
    head?_collapse
  have hslash : (tailOf path).head? ≠ some slash := by
    rw [hhead]
    intro h
    have hnot := List.head?_dropWhile_not (· == slash) (trimPathSpaces path)
    rw [trimPrefixSlash] at h
    rw [h] at hnot
    simp at hnot
  obtain ⟨f, more, hsplit, hf⟩ := stringSplit_head hslash
  refine ⟨f, more, hsplit, by rw [hf]; exact hslash, ?_⟩
  rw [onlySlashes_iff, cstr_eq_nil_iff, cstr_eq_nil_iff, hf, hhead]

/-- A path without a slash in front is a fragment as it is. -/
theorem fragOf_eq_self (hs : s.head? ≠ some slash) : fragOf s = s := by
  rw [fragOf, if_neg]
  intro hname
  have hcstr : cstr s = ascii "/" := by
    rw [sameName, beq_iff_eq] at hname
    rw [← hname]
    decide
  cases s with
  | nil => simp [cstr, ascii] at hcstr
  | cons a s =>
      rw [cstr, List.takeWhile_cons] at hcstr
      split_ifs at hcstr with ha
      · obtain ⟨hslash, -⟩ := List.cons.inj hcstr
        exact hs (by rw [hslash]; rfl)
      · cases hcstr

/-- The entry of an empty name is the entry of the empty segment. -/
theorem entry_of_empty_name (hs : cstr s = []) : t.Entry p s c ↔ t.Entry p [] c := by
  have hhead : s.head? ≠ some slash ∧ s.head? ≠ some 58 := by
    rcases cstr_eq_nil_iff.mp hs with h | h <;> rw [h] <;> decide
  have hfind : ∀ n : Node (Middleware ρ), n.findChild s = n.findChild [] := by
    intro n
    have hname : ∀ key, sameName s key = sameName [] key := fun key => by
      rw [sameName, sameName, hs]
      rfl
    rw [Node.findChild, Node.findChild]
    simp only [hname]
  have hnil : fragOf [] = [] := fragOf_eq_self (by decide)
  unfold TrieData.Entry
  rw [fragOf_eq_self hhead.1, hnil]
  constructor
  · rintro ⟨n, hn, ⟨-, h⟩ | ⟨h, -⟩⟩
    · exact ⟨n, hn, .inl ⟨by decide, by rw [← hfind]; exact h⟩⟩
    · exact absurd h hhead.2
  · rintro ⟨n, hn, ⟨-, h⟩ | ⟨h, -⟩⟩
    · exact ⟨n, hn, .inl ⟨hhead.2, by rw [hfind]; exact h⟩⟩
    · cases h

/-- A name that is not empty has another entry than the empty segment. -/
theorem entry_ne (ht : t.Ok) (hslash : s.head? ≠ some slash) (hs : cstr s ≠ [])
    (h : t.Entry p s c) (hempty : t.Entry p [] e) : c ≠ e := by
  obtain ⟨n, hn, hempty⟩ := hempty
  have hnil : fragOf [] = [] := fragOf_eq_self (by decide)
  rw [hnil] at hempty
  have hfind : n.findChild [] = some e := by
    rcases hempty with ⟨-, hfind⟩ | ⟨hhead, -⟩
    · exact hfind
    · cases hhead
  obtain ⟨n', hn', h⟩ := h
  obtain rfl := Option.some.inj (hn.symm.trans hn')
  rw [fragOf_eq_self hslash] at h
  have hlinks := (ht.linked hn).links
  rw [Node.findChild, Option.map_eq_some_iff] at hfind
  obtain ⟨k, hk, rfl⟩ := hfind
  have hkmem := List.mem_of_find?_eq_some hk
  rintro rfl
  rcases h with ⟨-, hfind⟩ | ⟨-, hcolon, -⟩
  · rw [Node.findChild, Option.map_eq_some_iff] at hfind
    obtain ⟨k', hk', hval⟩ := hfind
    -- links are different, so that the two names stand at one key
    obtain rfl : k' = k := List.inj_on_of_nodup_map (List.nodup_append.mp hlinks).2.1
      (List.mem_of_find?_eq_some hk') hkmem hval
    have hname := List.find?_some hk
    have hname' := List.find?_some hk'
    rw [sameName, beq_iff_eq] at hname hname'
    exact hs (hname'.trans hname.symm)
  · rw [hcolon] at hlinks
    exact (List.nodup_cons.mp hlinks).1 (List.mem_map_of_mem hkmem)

/-- A literal node is a child. -/
theorem child_of_entry {M : Type} {t : TrieData M} (h : t.Entry p s c) : Child t p c := by
  obtain ⟨n, hn, h⟩ := h
  rw [Child, deref_eq hn]
  rcases h with ⟨-, hfind⟩ | ⟨-, hcolon, -⟩
  · rw [Node.findChild, Option.map_eq_some_iff] at hfind
    obtain ⟨k, hk, rfl⟩ := hfind
    exact .inr (List.mem_map_of_mem (List.mem_of_find?_eq_some hk))
  · exact .inl hcolon

/-- Entries go along a path. -/
theorem pathTo_of_entries (h : PathTo t p l) (hentries : t.Entries p segments c) :
    ∃ back, PathTo t c (l ++ back) := by
  induction hentries generalizing l with
  | nil p => exact ⟨[], by rw [List.append_nil]; exact h⟩
  | cons hentry _ ih =>
      obtain ⟨back, hback⟩ := ih (h.snoc (child_of_entry hentry))
      exact ⟨_ :: back, by rw [List.append_assoc] at hback; exact hback⟩

/-- The nodes of the entries' beginning are on the path. -/
theorem mem_of_entries (ht : t.Ok) (hfront : t.Entries 0 segments p) {more : List Text}
    (hmore : t.Entries p more c) (hpath : PathTo t c l) : p ∈ l := by
  obtain ⟨front, hp⟩ := pathTo_of_entries pathTo_root hfront
  obtain ⟨back, hc⟩ := pathTo_of_entries hp hmore
  rw [hpath.eq ht hc]
  obtain ⟨nodes, heq, -, hlast⟩ := hp
  rw [heq]
  exact List.mem_append_left _ (List.mem_of_getLast? hlast)

/-- A path leads through the paths to its nodes. -/
theorem PathTo.of_mem (h : PathTo t c l) (hp : p ∈ l) :
    ∃ front back, l = front ++ back ∧ PathTo t p front := by
  induction l using List.reverseRecOn generalizing c with
  | nil => cases hp
  | append_singleton nodes d ih =>
      rcases h.last with ⟨rfl, hl⟩ | ⟨q, before, hpath, hlink, hl⟩
      · rw [hl, List.mem_singleton] at hp
        rw [hl, hp]
        exact ⟨[0], [], rfl, pathTo_root⟩
      · obtain ⟨rfl, -⟩ := List.append_inj' hl rfl
        rcases List.mem_append.mp hp with hp | hp
        · obtain ⟨front, back, rfl, hfront⟩ := ih hpath hp
          exact ⟨front, back ++ [d], by rw [List.append_assoc], hfront⟩
        · obtain rfl := List.mem_singleton.mp hp
          obtain rfl : p = c := by
            have hlast := List.append_inj_right' hl rfl
            exact (List.cons.inj hlast).1
          exact ⟨nodes ++ [p], [], by rw [List.append_nil], h⟩

/-- **The middlewares' node is on the path to an API exactly if the prefix covers the API.** -/
theorem mem_path_iff {front path : Text} (ht : t.Ok) (hused : UsedAt t front p)
    (hfront : front ≠ [] → ¬ ascii "//" <:+: trimPathSpaces front)
    (hjoin : ¬ ascii "//" <:+: trimPathSpaces (apiPath front path))
    (hentries : t.Entries 0 (segmentsOf (apiPath front path)) c) (hpath : PathTo t c l) :
    p ∈ l ↔ Covers front path := by
  rcases hused with ⟨rfl, rfl⟩ | ⟨hne, hp⟩
  · obtain ⟨nodes, rfl, -⟩ := hpath
    exact iff_of_true (List.mem_cons_self ..) (.inl rfl)
  · by_cases hnil : path = []
    · rw [apiPath, if_pos hnil] at hentries
      obtain rfl := hp.eq hentries
      refine iff_of_true (mem_of_entries ht hp (.nil p) hpath) (.inr (.inr ?_))
      rw [hnil]
      simp [trimPathSpaces, cstr]
    · rw [apiPath, if_neg hnil] at hentries hjoin
      obtain ⟨segments, hbare, hfull, hapi⟩ := segments_join (hfront hne) hjoin
      rw [hapi] at hentries
      by_cases hb : Bare front
      · obtain ⟨f, more, hsplit, hslash, honly⟩ := tailOf_head path
        rw [hsplit] at hentries
        rw [hbare hb] at hp
        obtain ⟨e, hsegments, hlast⟩ := TrieData.Entries.append_iff.mp hp
        obtain ⟨e', hsegments', hmore⟩ := TrieData.Entries.append_iff.mp hentries
        obtain rfl := hsegments.eq hsegments'
        have hempty : t.Entry e [] p := by
          cases hlast with
          | cons hentry hrest =>
              cases hrest
              exact hentry
        cases hmore with
        | cons hentry hrest =>
            rename_i c'
            by_cases hf : cstr f = []
            · obtain rfl := ((entry_of_empty_name hf).mp hentry).eq hempty
              refine iff_of_true ?_ (.inr (.inr (honly.mp hf)))
              exact mem_of_entries ht (TrieData.Entries.append_iff.mpr
                ⟨e, hsegments, .cons hempty (.nil c')⟩) hrest hpath
            · refine iff_of_false (fun hmem => ?_) ?_
              · -- the paths to both entries begin with the path to their parent
                obtain ⟨le, hle⟩ := pathTo_of_entries pathTo_root hsegments
                have hc' := hle.snoc (child_of_entry hentry)
                obtain ⟨back, hback⟩ := pathTo_of_entries hc' hrest
                obtain ⟨lp, after, heq, hlp⟩ := hpath.of_mem hmem
                have hl := hpath.eq ht hback
                rw [heq, hlp.eq ht (hle.snoc (child_of_entry hempty))] at hl
                simp only [List.append_assoc] at hl
                obtain ⟨hpc, -⟩ := List.cons.inj
                  (List.append_cancel_left (List.append_cancel_left hl))
                exact entry_ne ht hslash hf hentry hempty hpc.symm
              · rintro (h | h | h)
                · exact hne h
                · exact h hb
                · exact hf (honly.mpr h)
      · rw [hfull hb] at hp
        obtain ⟨e, hsegments, hmore⟩ := TrieData.Entries.append_iff.mp hentries
        obtain rfl := hsegments.eq hp
        exact iff_of_true (mem_of_entries ht hp hmore hpath) (.inr (.inl hb))

theorem useGroup_installed (h : (r.useGroup env g).2 = .ok ()) :
    (g.middleWares ≠ [] → ∃ p n,
      UsedAt (r.useGroup env g).1.trie.toTrieData g.prefixPath p ∧
      (r.useGroup env g).1.trie.toTrieData.node? p = some n ∧
      (g.middleWares.map fun m => (⟨p, m⟩ : ActionHolder (Middleware ρ))).Sublist n.middlewares ∧
      (g.prefixPath ≠ [] → ¬ ascii "//" <:+: trimPathSpaces g.prefixPath)) ∧
    ∀ api ∈ g.apis, ¬ ascii "//" <:+: trimPathSpaces (apiPath g.prefixPath api.path) := by
  rw [Router.useGroup] at h ⊢
  split_ifs at h ⊢ with hnil
  · exact ⟨fun hne => absurd hnil hne, fun api hmem => ((useApis_installed h).2 api hmem).2⟩
  · have hused := @use_installed ρ env r g.prefixPath g.middleWares
    cases hres : r.use env g.prefixPath g.middleWares with
    | mk r' res =>
        rw [hres] at h hused
        cases res with
        | error e => cases h
        | ok _ =>
            obtain ⟨hgrows, hall⟩ := useApis_installed h
            obtain ⟨p, n, hp, hn, hsub, hslashes⟩ := hused rfl
            obtain ⟨n', hn', hgrow⟩ := hgrows.node hn
            exact ⟨fun _ => ⟨p, n', hp.grows hgrows, hn', hsub.trans hgrow.middlewares.sublist,
              hslashes⟩, fun api hmem => (hall api hmem).2⟩

/-- The middlewares of a path are registered at its nodes. -/
theorem node_of_mem_middlewares {a : ActionHolder (Middleware ρ)} (ht : t.Ok)
    (ha : a ∈ l.flatMap fun p => (t.deref p).middlewares) : a.node ∈ l := by
  obtain ⟨q, hq, ha⟩ := List.mem_flatMap.mp ha
  cases hn : t.node? q with
  | none =>
      rw [TrieData.deref, hn] at ha
      cases ha
  | some n =>
      rw [deref_eq hn] at ha
      rw [(ht.linked hn).owner a ha]
      exact hq

/-- What a request that reaches a handler has invoked, and where the group's middlewares stand. -/
theorem HandlerRun.spec {regs : List (Registration ρ)} {garbage : Bool → ℕ → Option ℕ}
    {indeterminate : Option ℕ} {request : Request} {rest : ρ} {err : SideError} {h : Handled ρ}
    {matched : Matched} {node : ℕ} (hinstalled : (r.useGroup env g).2 = .ok ())
    (hapi : api ∈ g.apis)
    (hreach : HandlerRun env (regs.foldl (Router.register env) (r.useGroup env g).1) g api garbage
      indeterminate request rest err h l matched node) :
    let r' := regs.foldl (Router.register env) (r.useGroup env g).1
    h.invoked.take (middlewareCount r' l) = l.flatMap (fun p => (r'.trie.deref p).middlewares) ∧
      (g.middleWares ≠ [] → ∃ p n, UsedAt r'.trie.toTrieData g.prefixPath p ∧
        r'.trie.toTrieData.node? p = some n ∧
        (g.middleWares.map fun m => (⟨p, m⟩ : ActionHolder (Middleware ρ))).Sublist n.middlewares ∧
        (p ∈ l ↔ Covers g.prefixPath api.path)) := by
  obtain ⟨hused, hjoin⟩ := useGroup_installed hinstalled
  have hgrows := @registerAll_grows ρ env (r.useGroup env g).1 regs
  generalize regs.foldl (Router.register env) (r.useGroup env g).1 = r' at hreach hgrows ⊢
  dsimp only
  have hstops := handle_stops hreach.dispatched hreach.path hreach.handled
  have hlen : (l.flatMap fun p => (r'.trie.deref p).middlewares).length < h.invoked.length := by
    obtain ⟨f, -, hf⟩ := hreach.invoked
    by_contra hle
    rw [middlewareCount, List.drop_eq_nil_of_le (Nat.le_of_not_lt hle)] at hf
    cases hf
  refine ⟨(hstops.behind hlen).1, fun hne => ?_⟩
  obtain ⟨p, n, hp, hn, hsub, hslashes⟩ := hused hne
  obtain ⟨n', hn', hgrow⟩ := hgrows.node hn
  exact ⟨p, n', hp.grows hgrows, hn', hsub.trans hgrow.middlewares.sublist,
    mem_path_iff r'.trie.ok (hp.grows hgrows) hslashes (hjoin api hapi) hreach.entries hreach.path⟩

end Cover

/-- **Guarded groups.** After a group has been installed, and after any later registrations, a
request that reaches a handler of one of its APIs has run all of its middlewares before, exactly
if there are none or the prefix covers the API. -/
theorem group_guarded_iff (env : Env) (r : Router ρ) (g : RouteGroup ρ)
    (hinstalled : (r.useGroup env g).2 = .ok ()) (regs : List (Registration ρ))
    (api : RouteGroupMethodHolder ρ) (hapi : api ∈ g.apis) (garbage : Bool → ℕ → Option ℕ)
    (indeterminate : Option ℕ) (request : Request) (rest : ρ) (err : SideError) (h : Handled ρ)
    (l : List ℕ) (matched : Matched) (node : ℕ)
    (hreach : HandlerRun env (regs.foldl (Router.register env) (r.useGroup env g).1) g api garbage
      indeterminate request rest err h l matched node) :
    MiddlewaresFirst (regs.foldl (Router.register env) (r.useGroup env g).1) g h l ↔
      g.middleWares = [] ∨ Covers g.prefixPath api.path := by
  obtain ⟨htake, hwhere⟩ := hreach.spec hinstalled hapi
  generalize regs.foldl (Router.register env) (r.useGroup env g).1 = r' at hreach htake hwhere ⊢
  by_cases hne : g.middleWares = []
  · exact iff_of_true (.inl hne) (.inl hne)
  obtain ⟨p, n, hp, hn, hsub, hiff⟩ := hwhere hne
  rw [MiddlewaresFirst, or_iff_right hne, or_iff_right hne, htake]
  constructor
  · rintro ⟨p', hp', hsub'⟩
    obtain rfl := hp'.eq hp
    refine hiff.mp ?_
    -- one of the group's middlewares stands among those of the path
    obtain ⟨m, ms, hms⟩ := List.exists_cons_of_ne_nil hne
    rw [hms] at hsub'
    exact node_of_mem_middlewares r'.trie.ok (hsub'.subset (List.mem_cons_self ..))
  · intro hcovers
    refine ⟨p, hp, hsub.trans ?_⟩
    obtain ⟨before, after, rfl⟩ := List.append_of_mem (hiff.mpr hcovers)
    rw [List.flatMap_append, List.flatMap_cons, deref_eq hn]
    exact (List.sublist_append_left _ _).trans (List.sublist_append_right _ _)

/-- A group with one middleware and the API `/b`. -/
def oneApiGroup (front : Text) : RouteGroup Unit where
  prefixPath := front
  middleWares := [fun request rest err => { request, rest, err }]
  apis := [⟨ascii "GET", ascii "/b", [fun request rest => (request, rest, none)]⟩]

/-- A router with that group only. -/
def oneGroupRouter (front : Text) : Router Unit :=
  ((⟨.new anyName⟩ : Router Unit).useGroup anyName (oneApiGroup front)).1

/-- What `GET /a/b` leaves behind on it. -/
def handledByGroup (front : Text) : Handled Unit :=
  ((oneGroupRouter front).handle anyName (fun _ _ => none) none
    { method := ascii "GET", path := ascii "/a/b" } () {}).getD
    { request := { method := [], path := [] }, rest := (), err := {} }

/-- The request reaches the handler at the node of the segments `a` and `b`. -/
theorem oneGroup_run {front : Text} {node : ℕ}
    (hmatch : (oneGroupRouter front).trie.toTrieData.matchPath anyName (fun _ _ => none) none
      (ascii "/a/b") = some { node := some node, pipeline := [0, 1, node] })
    (hhandlers : ((((oneGroupRouter front).trie.deref node).handlers.lookup (ascii "GET")).getD
      []).length ≠ 0)
    (hsegments : segmentsOf (apiPath front (ascii "/b")) = [ascii "a", ascii "b"])
    (ha : (oneGroupRouter front).trie.toTrieData.Entry 0 (ascii "a") 1)
    (hb : (oneGroupRouter front).trie.toTrieData.Entry 1 (ascii "b") node)
    (hinvoked : ⟨node, HttpHandler.toMiddleware fun request rest => (request, rest, none)⟩ ∈
      (handledByGroup front).invoked.drop
        (middlewareCount (oneGroupRouter front) [0, 1, node])) :
    HandlerRun anyName (oneGroupRouter front) (oneApiGroup front)
      ⟨ascii "GET", ascii "/b", [fun request rest => (request, rest, none)]⟩ (fun _ _ => none) none
      { method := ascii "GET", path := ascii "/a/b" } () {} (handledByGroup front) [0, 1, node]
      { node := some node, pipeline := [0, 1, node] } node where
  handled := by
    rw [handledByGroup, Router.handle, if_neg (by decide), hmatch]
    rfl
  dispatched := ⟨by decide, hmatch, rfl, rfl, fun h => hhandlers (by rw [h]; rfl)⟩
  entries := by
    rw [show (oneApiGroup front).prefixPath = front from rfl, hsegments]
    exact .cons ha (.cons hb (.nil node))
  method := rfl
  path := (pathTo_root.snoc (child_of_entry ha)).snoc (child_of_entry hb)
  invoked := ⟨_, List.mem_cons_self .., hinvoked⟩

/-- Under `/a` the middleware runs before the handler. -/
theorem oneGroup_a_guarded : ((⟨.new anyName⟩ : Router Unit).useGroup anyName
    (oneApiGroup (ascii "/a"))).2 = .ok () ∧
    MiddlewaresFirst (oneGroupRouter (ascii "/a")) (oneApiGroup (ascii "/a"))
      (handledByGroup (ascii "/a")) [0, 1, 2] := by
  have hrun := @oneGroup_run (ascii "/a") 2 (by decide) (by decide) (by decide)
    ⟨_, rfl, .inl ⟨by decide, rfl⟩⟩ ⟨_, rfl, .inl ⟨by decide, rfl⟩⟩ (List.mem_cons_self ..)
  exact ⟨rfl, (group_guarded_iff anyName ⟨.new anyName⟩ (oneApiGroup (ascii "/a")) rfl [] _
    (List.mem_cons_self ..) _ _ _ _ _ _ _ _ _ hrun).mpr (.inr (.inr (.inl (by decide))))⟩

/-- **A bypassed middleware.** Under `/a/` the middleware is registered at the empty segment below
`a`, and the handler of `/b` next to it: `GET /a/b` reaches the handler alone. -/
theorem slash_group_bypassed : ((⟨.new anyName⟩ : Router Unit).useGroup anyName
    (oneApiGroup (ascii "/a/"))).2 = .ok () ∧
    ¬ Guarded anyName (oneGroupRouter (ascii "/a/")) (oneApiGroup (ascii "/a/")) := by
  have hrun := @oneGroup_run (ascii "/a/") 3 (by decide) (by decide) (by decide)
    ⟨_, rfl, .inl ⟨by decide, rfl⟩⟩ ⟨_, rfl, .inl ⟨by decide, rfl⟩⟩ (List.mem_cons_self ..)
  refine ⟨rfl, fun hguarded => ?_⟩
  rcases hguarded _ (List.mem_cons_self ..) _ _ _ _ _ _ _ _ _ hrun with hnil | ⟨p, -, hsub⟩
  · cases hnil
  · have hnone : (handledByGroup (ascii "/a/")).invoked.take
        (middlewareCount (oneGroupRouter (ascii "/a/")) [0, 1, 3]) = [] := rfl
    rw [hnone] at hsub
    cases hsub

end ArchNet.Routing

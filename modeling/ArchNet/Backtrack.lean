import Mathlib.Data.List.Lex

/-!
# Backtracking over Two Ways on

A word is read letter by letter from a node. At each letter there are at most two ways on, a
preferred one and a second one, and the goal is a node of a given kind at the end of the word.

* `Walk n w ds m` — from `n` the word `w` leads to `m` by the turns `ds`.
* `IsFirst n w m` — `m` is the goal that the first walk reaches, in the order that prefers the
  first way at the earliest turn that differs.
* `search` — the recursive search, and `tries`, the number of second ways it falls back to.
* `descend` — the iterative search: it takes the first way wherever there is one and puts the
  second ways it passes by on a stack, to be resumed from the top.
* `Greedy n w m` — a descent from `n` comes to `m` by the word `w`.

## Main results

* `search_eq_some_iff`, `search_eq_none_iff`: **the search finds the first goal**, and finds
  nothing only where no walk ends at a goal.
* `searchAll_descend`: one descent turns the search from a node into the search from the stack.
* `triesAll_descend`: what is counted is the number of entries taken from the stack.
* `descend_congr`, `Greedy.descend_both`: a descent sees the ways on from the nodes it comes to,
  and nothing else.
-/

namespace Backtrack

/-- The way taken at a letter. -/
inductive Turn
  | first
  | second
  deriving DecidableEq, Repr

variable {N A : Type*} (first second : N → A → Option N) (goal : N → Bool)

/-- Where a turn leads. -/
def follow : Turn → N → A → Option N
  | .first => first
  | .second => second

/-- **A walk**: the word leads from the node to another one by these turns. -/
inductive Walk : N → List A → List Turn → N → Prop
  | nil (n : N) : Walk n [] [] n
  | cons {n m k : N} {a : A} {w : List A} {d : Turn} {ds : List Turn}
      (hstep : follow first second d n a = some m) (hrest : Walk m w ds k) :
      Walk n (a :: w) (d :: ds) k

/-- The order of walks: at the earliest turn that differs the first way comes before the
second. -/
def Before : List Turn → List Turn → Prop :=
  List.Lex fun d e => d = .first ∧ e = .second

/-- **The first goal**: some walk leads to it, and every other walk to a goal comes later. -/
def IsFirst (n : N) (w : List A) (m : N) : Prop :=
  ∃ ds, Walk first second n w ds m ∧ goal m = true ∧
    ∀ es k, Walk first second n w es k → goal k = true → ds = es ∨ Before ds es

/-- The recursive search. -/
def search : N → List A → Option N
  | n, [] => if goal n then some n else none
  | n, a :: w => ((first n a).bind fun c => search c w).or ((second n a).bind fun d => search d w)

/-- **The fallbacks that are needed**: how many second ways are resumed after a first way has
led nowhere. Where there is no first way, the second is none. -/
def tries : N → List A → ℕ
  | _, [] => 0
  | n, a :: w =>
      match first n a, second n a with
      | some c, some d =>
          tries c w + if (search first second goal c w).isSome then 0 else 1 + tries d w
      | some c, none => tries c w
      | none, some d => tries d w
      | none, none => 0

/-- **The descent.** The second ways passed by go on the stack, the latest on top. -/
def descend : N → List A → List (N × List A) → Option N × List (N × List A)
  | n, [], stack => (if goal n then some n else none, stack)
  | n, a :: w, stack =>
      match first n a, second n a with
      | some c, some d => descend c w ((d, w) :: stack)
      | some c, none => descend c w stack
      | none, some d => descend d w stack
      | none, none => (none, stack)

/-- **The way of a descent**: the first way wherever there is one, and else the second. -/
inductive Greedy : N → List A → N → Prop
  | nil (n : N) : Greedy n [] n
  | cons {n m k : N} {a : A} {w : List A} (hstep : (first n a).or (second n a) = some m)
      (hrest : Greedy m w k) : Greedy n (a :: w) k

/-- The stack behind a node: the second way goes on it where there are two. -/
def passBy (c d : Option N) (w : List A) (stack : List (N × List A)) : List (N × List A) :=
  match c, d with
  | some _, some d => (d, w) :: stack
  | _, _ => stack

/-- The search from the entries of a stack, from the top. -/
def searchAll (stack : List (N × List A)) : Option N :=
  stack.findSome? fun e => search first second goal e.1 e.2

/-- The entries that are taken from a stack until a goal is found. -/
def triesAll : List (N × List A) → ℕ
  | [] => 0
  | (n, w) :: stack =>
      1 + tries first second goal n w +
        if (search first second goal n w).isSome then 0 else triesAll stack

-- the equations of the searches are made here, once for all the lemmas below
section
attribute [local simp] search tries descend searchAll triesAll
end

section Lemmas

variable {first second goal} {n m : N} {a : A} {w : List A} {stack : List (N × List A)}

theorem walk_nil_iff {ds : List Turn} : Walk first second n [] ds m ↔ ds = [] ∧ n = m := by
  constructor
  · rintro ⟨⟩
    exact ⟨rfl, rfl⟩
  · rintro ⟨rfl, rfl⟩
    exact .nil n

theorem walk_cons_iff {ds : List Turn} :
    Walk first second n (a :: w) ds m ↔
      ∃ d es c, ds = d :: es ∧ follow first second d n a = some c ∧
        Walk first second c w es m := by
  constructor
  · rintro (_ | ⟨hstep, hrest⟩)
    exact ⟨_, _, _, rfl, hstep, hrest⟩
  · rintro ⟨d, es, c, rfl, hstep, hrest⟩
    exact .cons hstep hrest

/-- **Nothing is found only where no walk ends at a goal.** -/
theorem search_eq_none_iff : search first second goal n w = none ↔
    ∀ ds k, Walk first second n w ds k → goal k = false := by
  induction w generalizing n with
  | nil =>
      rw [search]
      constructor
      · intro h ds k hwalk
        obtain ⟨-, rfl⟩ := walk_nil_iff.mp hwalk
        simpa using h
      · intro h
        simp [h [] n (.nil n)]
  | cons a w ih =>
      rw [search, Option.or_eq_none_iff, Option.bind_eq_none_iff, Option.bind_eq_none_iff]
      constructor
      · rintro ⟨hfirst, hsecond⟩ ds k hwalk
        obtain ⟨d, es, c, rfl, hstep, hrest⟩ := walk_cons_iff.mp hwalk
        cases d with
        | first => exact ih.mp (hfirst c hstep) es k hrest
        | second => exact ih.mp (hsecond c hstep) es k hrest
      · intro h
        exact ⟨fun c hc => ih.mpr fun ds k hwalk => h _ k (.cons (d := .first) hc hwalk),
          fun c hc => ih.mpr fun ds k hwalk => h _ k (.cons (d := .second) hc hwalk)⟩

/-- What is found is the first goal. -/
theorem isFirst_of_search (h : search first second goal n w = some m) :
    IsFirst first second goal n w m := by
  induction w generalizing n with
  | nil =>
      rw [search] at h
      split at h
      · rename_i hgoal
        obtain rfl := Option.some.inj h
        refine ⟨[], .nil n, hgoal, ?_⟩
        intro es k hwalk _
        exact .inl (walk_nil_iff.mp hwalk).1.symm
      · cases h
  | cons a w ih =>
      rw [search, Option.or_eq_some_iff] at h
      rcases h with h | ⟨hnone, h⟩
      · obtain ⟨c, hc, hsearch⟩ := Option.bind_eq_some_iff.mp h
        obtain ⟨ds, hwalk, hgoal, hleast⟩ := ih hsearch
        refine ⟨.first :: ds, .cons (d := .first) hc hwalk, hgoal, ?_⟩
        intro es k hother hk
        obtain ⟨d, es, c', rfl, hstep, hrest⟩ := walk_cons_iff.mp hother
        cases d with
        | first =>
            obtain rfl : c = c' := Option.some.inj (hc.symm.trans hstep)
            rcases hleast es k hrest hk with rfl | hlt
            · exact .inl rfl
            · exact .inr (.cons hlt)
        | second => exact .inr (.rel ⟨rfl, rfl⟩)
      · obtain ⟨c, hc, hsearch⟩ := Option.bind_eq_some_iff.mp h
        obtain ⟨ds, hwalk, hgoal, hleast⟩ := ih hsearch
        refine ⟨.second :: ds, .cons (d := .second) hc hwalk, hgoal, ?_⟩
        intro es k hother hk
        obtain ⟨d, es, c', rfl, hstep, hrest⟩ := walk_cons_iff.mp hother
        cases d with
        | first =>
            -- a goal behind the first way would have been found there
            have hnot :=
              search_eq_none_iff.mp (Option.bind_eq_none_iff.mp hnone c' hstep) es k hrest
            exact absurd hk (by simp [hnot])
        | second =>
            obtain rfl : c = c' := Option.some.inj (hc.symm.trans hstep)
            rcases hleast es k hrest hk with rfl | hlt
            · exact .inl rfl
            · exact .inr (.cons hlt)

/-- A walk is determined by its turns. -/
theorem Walk.eq {k : N} {ds : List Turn} (h : Walk first second n w ds m)
    (h' : Walk first second n w ds k) : m = k := by
  induction h with
  | nil n => exact (walk_nil_iff.mp h').2
  | cons hstep _ ih =>
      obtain ⟨d, es, c, hds, hstep', hrest'⟩ := walk_cons_iff.mp h'
      obtain ⟨rfl, rfl⟩ := List.cons.inj hds
      obtain rfl := Option.some.inj (hstep.symm.trans hstep')
      exact ih hrest'

theorem not_before_of_before {ds es : List Turn} (h : Before ds es) : ¬ Before es ds := by
  have hasymm : Std.Asymm fun d e : Turn => d = .first ∧ e = .second :=
    ⟨fun d e hde hed => by simp [hde.1] at hed⟩
  exact (List.Lex.asymm _).asymm _ _ h

/-- There is one first goal. -/
theorem IsFirst.eq {k : N} (h : IsFirst first second goal n w m)
    (h' : IsFirst first second goal n w k) : m = k := by
  obtain ⟨ds, hwalk, hgoal, hleast⟩ := h
  obtain ⟨es, hwalk', hgoal', hleast'⟩ := h'
  rcases hleast es k hwalk' hgoal' with rfl | hlt
  · exact hwalk.eq hwalk'
  · rcases hleast' ds m hwalk hgoal with rfl | hlt'
    · exact hwalk.eq hwalk'
    · exact absurd hlt' (not_before_of_before hlt)

/-- **The search finds the first goal.** -/
theorem search_eq_some_iff :
    search first second goal n w = some m ↔ IsFirst first second goal n w m := by
  constructor
  · exact isFirst_of_search
  · intro h
    cases hsearch : search first second goal n w with
    | none =>
        obtain ⟨ds, hwalk, hgoal, -⟩ := h
        exact absurd hgoal (by simp [search_eq_none_iff.mp hsearch ds m hwalk])
    | some k => rw [(isFirst_of_search hsearch).eq h]

theorem searchAll_cons : searchAll first second goal ((n, w) :: stack) =
    (search first second goal n w).or (searchAll first second goal stack) := by
  rw [searchAll, List.findSome?_cons]
  cases search first second goal n w with
  | none => rfl
  | some m => rfl

/-- **One descent** turns the search from a node into the search from the stack. -/
theorem searchAll_descend :
    (search first second goal n w).or (searchAll first second goal stack) =
      (descend first second goal n w stack).1.or
        (searchAll first second goal (descend first second goal n w stack).2) := by
  induction w generalizing n stack with
  | nil => rfl
  | cons a w ih =>
      rw [search, descend]
      cases first n a with
      | none =>
          cases second n a with
          | none => rfl
          | some d => exact ih
      | some c =>
          cases second n a with
          | none =>
              rw [Option.bind_none, Option.or_none]
              exact ih
          | some d =>
              rw [Option.bind_some, Option.bind_some, Option.or_assoc, ← searchAll_cons]
              exact ih

theorem search_of_descend (h : (descend first second goal n w stack).1 = some m) :
    search first second goal n w = some m := by
  induction w generalizing n stack with
  | nil => exact h
  | cons a w ih =>
      rw [descend] at h
      rw [search]
      cases hfirst : first n a with
      | none =>
          cases hsecond : second n a with
          | none =>
              rw [hfirst, hsecond] at h
              cases h
          | some d =>
              rw [hfirst, hsecond] at h
              exact ih h
      | some c =>
          rw [hfirst] at h
          have hc : search first second goal c w = some m := by
            cases hsecond : second n a with
            | none =>
                rw [hsecond] at h
                exact ih h
            | some d =>
                rw [hsecond] at h
                exact ih h
          rw [Option.bind_some, hc, Option.some_or]

/-- A descent that ends at a goal falls back to nothing. -/
theorem tries_of_descend (h : (descend first second goal n w stack).1 = some m) :
    tries first second goal n w = 0 := by
  induction w generalizing n stack with
  | nil => rfl
  | cons a w ih =>
      rw [descend] at h
      rw [tries]
      cases hfirst : first n a with
      | none =>
          cases hsecond : second n a with
          | none => rfl
          | some d =>
              rw [hfirst, hsecond] at h
              exact ih h
      | some c =>
          cases hsecond : second n a with
          | none =>
              rw [hfirst, hsecond] at h
              exact ih h
          | some d =>
              rw [hfirst, hsecond] at h
              dsimp only at h ⊢
              rw [ih h, search_of_descend h]
              rfl

/-- **The entries taken from the stack** that a descent leaves are the fallbacks that the search
needs, and those of the stack below where it finds nothing. -/
theorem triesAll_descend (h : (descend first second goal n w stack).1 = none) :
    triesAll first second goal (descend first second goal n w stack).2 =
      tries first second goal n w +
        if (search first second goal n w).isSome then 0 else triesAll first second goal stack := by
  induction w generalizing n stack with
  | nil =>
      rw [descend] at h ⊢
      dsimp only at h
      rw [tries, search, h]
      simp
  | cons a w ih =>
      rw [descend] at h ⊢
      rw [tries, search]
      cases hfirst : first n a with
      | none =>
          cases hsecond : second n a with
          | none => simp
          | some d =>
              rw [hfirst, hsecond] at h
              exact ih h
      | some c =>
          cases hsecond : second n a with
          | none =>
              rw [hfirst, hsecond] at h
              dsimp only
              rw [Option.bind_some, Option.bind_none, Option.or_none]
              exact ih h
          | some d =>
              rw [hfirst, hsecond] at h
              dsimp only at h ⊢
              rw [ih h, triesAll, Option.bind_some, Option.bind_some]
              cases hc : search first second goal c w with
              | none =>
                  rw [Option.none_or]
                  simp only [Option.isSome_none, Bool.false_eq_true, if_false]
                  omega
              | some k => simp

/-- **One letter of a descent.** -/
theorem descend_cons : descend first second goal n (a :: w) stack =
    match (first n a).or (second n a) with
    | none => (none, passBy (first n a) (second n a) w stack)
    | some c => descend first second goal c w (passBy (first n a) (second n a) w stack) := by
  rw [descend]
  cases first n a with
  | none => cases second n a <;> rfl
  | some c => cases second n a <;> rfl

theorem passBy_append (c d : Option N) :
    passBy c d w stack = passBy c d w [] ++ stack := by
  cases c with
  | none => rfl
  | some c => cases d <;> rfl

variable {first' second' : N → A → Option N} {goal' : N → Bool} {k : N} {u : List A}

/-- The two graphs have the same ways on wherever a descent along the word comes to. -/
def AgreeOn (first second first' second' : N → A → Option N) (n : N) (w : List A) : Prop :=
  ∀ u a v k, w = u ++ a :: v → Greedy first second n u k →
    first' k a = first k a ∧ second' k a = second k a

theorem AgreeOn.head (h : AgreeOn first second first' second' n (a :: w)) :
    first' n a = first n a ∧ second' n a = second n a :=
  h [] a w n rfl (.nil n)

theorem AgreeOn.tail (h : AgreeOn first second first' second' n (a :: w))
    (hstep : (first n a).or (second n a) = some m) : AgreeOn first second first' second' m w := by
  intro u b v k hw hgreedy
  exact h (a :: u) b v k (by rw [hw, List.cons_append]) (.cons hstep hgreedy)

/-- **A descent sees what it comes to**, and nothing else. -/
theorem descend_congr (h : AgreeOn first second first' second' n w)
    (hgoal : ∀ k, Greedy first second n w k → goal' k = goal k) :
    descend first' second' goal' n w stack = descend first second goal n w stack := by
  induction w generalizing n stack with
  | nil => rw [descend, descend, hgoal n (.nil n)]
  | cons a w ih =>
      rw [descend_cons, descend_cons, h.head.1, h.head.2]
      cases hstep : (first n a).or (second n a) with
      | none => rfl
      | some c => exact ih (h.tail hstep) fun k hk => hgoal k (.cons hstep hk)

/-- **What a descent finds** is the goal that its way ends at. -/
theorem descend_eq_some_iff : (descend first second goal n w stack).1 = some m ↔
    Greedy first second n w m ∧ goal m = true := by
  induction w generalizing n stack with
  | nil =>
      rw [descend]
      constructor
      · intro h
        obtain ⟨hgoal, rfl⟩ : goal n = true ∧ n = m := by simpa using h
        exact ⟨.nil n, hgoal⟩
      · rintro ⟨⟨⟩, hgoal⟩
        dsimp only
        rw [hgoal, if_pos rfl]
  | cons a w ih =>
      rw [descend_cons]
      constructor
      · intro h
        cases hstep : (first n a).or (second n a) with
        | none =>
            rw [hstep] at h
            cases h
        | some c =>
            rw [hstep] at h
            obtain ⟨hgreedy, hgoal⟩ := ih.mp h
            exact ⟨.cons hstep hgreedy, hgoal⟩
      · rintro ⟨hgreedy, hgoal⟩
        cases hgreedy with
        | cons hstep hrest =>
            rw [hstep]
            exact ih.mpr ⟨hrest, hgoal⟩

/-- The way of a descent is the same in both graphs. -/
theorem AgreeOn.greedy_iff (h : AgreeOn first second first' second' n w) :
    Greedy first' second' n w m ↔ Greedy first second n w m := by
  induction w generalizing n with
  | nil =>
      constructor
      · rintro ⟨⟩
        exact .nil _
      · rintro ⟨⟩
        exact .nil _
  | cons a w ih =>
      constructor
      · rintro (_ | ⟨hstep, hrest⟩)
        rw [h.head.1, h.head.2] at hstep
        exact .cons hstep ((ih (h.tail hstep)).mp hrest)
      · rintro (_ | ⟨hstep, hrest⟩)
        refine .cons ?_ ((ih (h.tail hstep)).mpr hrest)
        rw [h.head.1, h.head.2]
        exact hstep

/-- **Up to a node** both descents put the same on the stack. -/
theorem Greedy.descend_both (hgreedy : Greedy first second n u k)
    (h : AgreeOn first second first' second' n u) (w : List A) : ∃ front, ∀ stack,
      descend first second goal n (u ++ w) stack =
          descend first second goal k w (front ++ stack) ∧
        descend first' second' goal' n (u ++ w) stack =
          descend first' second' goal' k w (front ++ stack) := by
  induction hgreedy with
  | nil n => exact ⟨[], fun stack => ⟨rfl, rfl⟩⟩
  | @cons n m k a u hstep _ ih =>
      obtain ⟨front, hfront⟩ := ih (h.tail hstep)
      refine ⟨front ++ passBy (first n a) (second n a) (u ++ w) [], fun stack => ?_⟩
      rw [List.cons_append, descend_cons, descend_cons, h.head.1, h.head.2, hstep,
        List.append_assoc, ← passBy_append]
      exact hfront _

/-- The way of a descent goes on from every node it comes to. -/
theorem Greedy.split (h : Greedy first second n (u ++ w) m) (hfront : Greedy first second n u k) :
    Greedy first second k w m := by
  induction hfront with
  | nil n => exact h
  | cons hstep _ ih =>
      rw [List.cons_append] at h
      cases h with
      | cons hstep' hrest =>
          obtain rfl := Option.some.inj (hstep.symm.trans hstep')
          exact ih hrest

theorem Greedy.append (hfront : Greedy first second n u k) (h : Greedy first second k w m) :
    Greedy first second n (u ++ w) m := by
  induction hfront with
  | nil n => exact h
  | cons hstep _ ih => exact .cons hstep (ih h)

/-- What lies on the stack decides nothing about a descent. -/
theorem descend_stack : descend first second goal n w stack =
    ((descend first second goal n w []).1, (descend first second goal n w []).2 ++ stack) := by
  induction w generalizing n stack with
  | nil => rfl
  | cons a w ih =>
      rw [descend_cons, descend_cons, passBy_append]
      cases (first n a).or (second n a) with
      | none => rfl
      | some c =>
          dsimp only
          rw [ih, @ih c (passBy (first n a) (second n a) w [])]
          simp

end Lemmas

end Backtrack

import ArchNet.TrieShape
import ArchNet.TrieSimulation

/-!
# The Order of the Routes

A trie answers every path as any other trie does that the same patterns were added to, in
whatever order.

## Conventions

A search that falls back returns an indeterminate pointer. What may be returned for a path is the
set of the answers over all that these pointers may hold: nothing, a node, or an address where no
node stands. A node is told by its pattern.

Names and constraints are compared up to their first NUL, so that the one that was added first
stands for all that agree with it that far.

## Main definitions

* `Seen`, `MayAnswer`: what is observed of a match, and all that it may be.

## Main results

* `mayAnswer_order`: **the order of the patterns does not matter**, where their labels are apart.
* `apart_of_nul_free`: the labels of patterns without a NUL are apart.
-/

open Bytes

namespace ArchNet.Routing

variable {M : Type}

/-- **What is observed of a match**: the pattern of the node that is found (`some none` where the
pointer dangles), the parameters, and the error. -/
structure Seen where
  node : Option (Option (List Label))
  params : Params
  error : Bool
  deriving Repr, DecidableEq

/-- What is observed of a result. -/
def TrieData.seen (t : TrieData M) (m : Matched) : Seen :=
  ⟨m.node.map (patternOf t), m.params, m.error⟩

/-- **What a match may answer**, `none` being the read through a dangling pointer. -/
def MayAnswer (env : Env) (t : TrieData M) (path : Text) (o : Option Seen) : Prop :=
  ∃ garbage indeterminate, (t.matchPath env garbage indeterminate path).map t.seen = o

section Order

variable {env : Env} {t t' : TrieData M} {n : Node M} {i j p p' c : ℕ} {s : Text}
  {ls : List Label} {known ends : Set (List Label)}

/-- Nodes with one pattern, which links lead to. -/
def Twins (t t' : TrieData M) (i j : ℕ) : Prop := ∃ ls, At t i ls ∧ At t' j ls

/-- A child of a node has a twin below the node's twin. -/
theorem Shape.twin (hs : Shape t known ends) (hs' : Shape t' known ends) (ht : t.Ok) (ht' : t'.Ok)
    (hp : At t p ls) (hp' : At t' p' ls) (hlink : Child t p c) :
    ∃ c', Twins t t' c c' ∧ Child t' p' c' ∧ labelBelow t' p' c' = labelBelow t p c := by
  have hc : At t c (ls ++ [labelBelow t p c]) := .child hp hlink
  obtain ⟨c', hc'⟩ := hs'.present (hs.pattern (hc.hasPattern ht))
  obtain ⟨q, hq, hlink', hlabel⟩ := hc'.last
  obtain rfl := hp'.eq ht' hq
  exact ⟨c', ⟨_, hc, hc'⟩, hlink', hlabel⟩

/-- **A segment leads to twins**, as the name of a literal child. -/
theorem Shape.findChild (hs : Shape t known ends) (hs' : Shape t' known ends) (ht : t.Ok)
    (ht' : t'.Ok) (hp : At t p ls) (hp' : At t' p' ls) (hfind : t.findChild p s = some c) :
    ∃ c', t'.findChild p' s = some c' ∧ Twins t t' c c' := by
  obtain ⟨n, hn⟩ := (hp.hasPattern ht).node ht
  obtain ⟨n', hn'⟩ := (hp'.hasPattern ht').node ht'
  obtain ⟨e, he, hname, rfl⟩ := (findChild_eq_some_iff ht hn).mp hfind
  have hlink : Child t p e.val := by
    rw [Child, deref_eq hn]
    exact .inr (List.mem_map_of_mem he)
  obtain ⟨c', htwins, -, hlabel⟩ := hs.twin hs' ht ht' hp hp' hlink
  rw [(labelBelow_literal_iff ht hn).mpr he, labelBelow_literal_iff ht' hn'] at hlabel
  exact ⟨c', (findChild_eq_some_iff ht' hn').mpr ⟨_, hlabel, hname, rfl⟩, htwins⟩

/-- **A segment leads to twins**, where the constraint of the parameter child accepts it. -/
theorem Shape.getColonNode (hs : Shape t known ends) (hs' : Shape t' known ends) (ht : t.Ok)
    (ht' : t'.Ok) (hp : At t p ls) (hp' : At t' p' ls)
    (hcolon : t.getColonNode env p s = some c) :
    ∃ c', t'.getColonNode env p' s = some c' ∧ Twins t t' c c' := by
  obtain ⟨n, hn⟩ := (hp.hasPattern ht).node ht
  obtain ⟨n', hn'⟩ := (hp'.hasPattern ht').node ht'
  obtain ⟨hchild, hregex⟩ := (getColonNode_eq_some_iff hn).mp hcolon
  have hlink : Child t p c := by
    rw [Child, deref_eq hn]
    exact .inl hchild
  obtain ⟨c', htwins, hlink', hlabel⟩ := hs.twin hs' ht ht' hp hp' hlink
  rw [labelBelow_param ht hn hchild] at hlabel
  have hchild' := colonChild_of_label ht' hn' hlink' hlabel
  rw [labelBelow_param ht' hn' hchild', Label.param.injEq] at hlabel
  refine ⟨c', (getColonNode_eq_some_iff hn').mpr ⟨hchild', ?_⟩, htwins⟩
  rwa [hlabel.2]

theorem rel_of_some {α β : Type} {r : α → β → Prop} {a : Option α} {b : Option β}
    (h : ∀ x, a = some x → ∃ y, b = some y ∧ r x y) (h' : ∀ y, b = some y → ∃ x, a = some x) :
    Option.Rel r a b := by
  cases a with
  | some x =>
      obtain ⟨y, rfl, hxy⟩ := h x rfl
      exact .some hxy
  | none =>
      cases b with
      | none => exact .none
      | some y =>
          obtain ⟨x, hx⟩ := h' y rfl
          cases hx

/-- **Tries of one shape answer alike.** -/
theorem Shape.alike (hs : Shape t known ends) (hs' : Shape t' known ends) (ht : t.Ok)
    (ht' : t'.Ok) (env : Env) (hstrict : t'.strictRoute = t.strictRoute)
    (hdepth : t'.maxFallbackDepth = t.maxFallbackDepth) : Alike env t t' (Twins t t') where
  strictRoute := hstrict
  maxFallbackDepth := hdepth
  root := ⟨[], .root, .root⟩
  child := by
    rintro p p' s ⟨ls, hp, hp'⟩
    refine rel_of_some (fun c hc => hs.findChild hs' ht ht' hp hp' hc) fun c' hc' => ?_
    obtain ⟨c, hc, -⟩ := hs'.findChild hs ht' ht hp' hp hc'
    exact ⟨c, hc⟩
  colon := by
    rintro p p' s ⟨ls, hp, hp'⟩
    refine rel_of_some (fun c hc => hs.getColonNode hs' ht ht' hp hp' hc) fun c' hc' => ?_
    obtain ⟨c, hc, -⟩ := hs'.getColonNode hs ht' ht hp' hp hc'
    exact ⟨c, hc⟩
  endpoint := by
    rintro p p' ⟨ls, hp, hp'⟩
    rw [Bool.eq_iff_iff, hs'.endpoint hp', hs.endpoint hp]
  name := by
    rintro p p' ⟨ls, hp, hp'⟩
    rw [hs'.name hp', hs.name hp]

/-- **What a pointer holds has its like in the other trie.** -/
theorem Shape.mirror (hs : Shape t known ends) (hs' : Shape t' known ends) (ht : t.Ok)
    (ht' : t'.Ok) (g : Option ℕ) :
    ∃ g', Option.Rel (fun i j => patternOf t i = patternOf t' j) g g' := by
  cases g with
  | none => exact ⟨none, .none⟩
  | some i =>
      cases hi : patternOf t i with
      | none =>
          refine ⟨some t'.nodes.length, .some ?_⟩
          rw [hi, patternOf, getPipeline_dangling node?_length, Option.map_none]
      | some ls =>
          obtain ⟨j, hj⟩ := hs'.present (hs.pattern ((patternOf_eq_some_iff ht).mp hi))
          exact ⟨some j, .some (hi.trans ((hj.hasPattern ht').patternOf ht').symm)⟩

theorem map_patternOf {a b : Option ℕ}
    (h : Option.Rel (fun i j => patternOf t i = patternOf t' j) a b) :
    a.map (patternOf t) = b.map (patternOf t') := by
  cases h with
  | none => rfl
  | some hij => rw [Option.map_some, Option.map_some, hij]

/-- Tries of one shape may give the same answers. -/
theorem Shape.mayAnswer (hs : Shape t known ends) (hs' : Shape t' known ends) (ht : t.Ok)
    (ht' : t'.Ok) (hstrict : t'.strictRoute = t.strictRoute)
    (hdepth : t'.maxFallbackDepth = t.maxFallbackDepth) {path : Text} {o : Option Seen}
    (h : MayAnswer env t path o) : MayAnswer env t' path o := by
  obtain ⟨garbage, indeterminate, rfl⟩ := h
  choose mirrored hmirrored using hs.mirror hs' ht ht'
  refine ⟨fun b k => mirrored (garbage b k), mirrored indeterminate, ?_⟩
  have hpipeline : ∀ {i j}, patternOf t i = patternOf t' j →
      (getPipeline t' j).isSome = (getPipeline t i).isSome := by
    intro i j hij
    have hsome := congrArg Option.isSome hij
    rw [patternOf, patternOf, Option.isSome_map, Option.isSome_map] at hsome
    exact hsome.symm
  have htwins : ∀ {i j}, Twins t t' i j → patternOf t i = patternOf t' j := by
    rintro i j ⟨ls, hi, hj⟩
    rw [(hi.hasPattern ht).patternOf ht, (hj.hasPattern ht').patternOf ht']
  have hrel := (hs.alike hs' ht ht' env hstrict hdepth).matchPath htwins
    hpipeline (fun b k => hmirrored (garbage b k)) (hmirrored indeterminate) path
  generalize t.matchPath env garbage indeterminate path = r at hrel ⊢
  generalize t'.matchPath env (fun b k => mirrored (garbage b k)) (mirrored indeterminate) path =
    r' at hrel ⊢
  cases hrel with
  | none => rfl
  | some hm =>
      rw [Option.map_some, Option.map_some, TrieData.seen, TrieData.seen, hm.params, hm.error,
        map_patternOf hm.node]

theorem addAll_grows {ps : List Text} (ht : t.Ok) (h : t.addAll env ps = some t') :
    t.Grows t' := by
  induction ps generalizing t with
  | nil =>
      obtain rfl := Option.some.inj h
      exact .refl t
  | cons p ps ih =>
      have hins : t.Inserts (t.addNode env p) _ := ht.addNode env p
      rw [TrieData.addAll] at h
      split at h
      · rename_i u c hu
        rw [hu] at hins
        exact hins.grows.trans (ih hins.ok h)
      · cases h

end Order

section Main

variable {env : Env} {t t' : TrieData M} {ps ps' : List Text}

theorem knownOf_congr (h : ∀ p, p ∈ ps ↔ p ∈ ps') : knownOf ps = knownOf ps' := by
  ext ls
  simp only [knownOf, Set.mem_ofPred_eq, h]

theorem endsOf_congr (h : ∀ p, p ∈ ps ↔ p ∈ ps') : endsOf ps = endsOf ps' := by
  ext ls
  simp only [endsOf, Set.mem_ofPred_eq, h]

theorem labelsOf_congr (h : ∀ p, p ∈ ps ↔ p ∈ ps') : labelsOf ps = labelsOf ps' := by
  ext l
  simp only [labelsOf, Set.mem_ofPred_eq, h]

/-- **The order of the patterns does not matter**: what a match may answer for a path depends on
the set of the patterns only, where names that compare as equal are equal. -/
theorem mayAnswer_order (strictRoute : Bool) (segmentPattern : Text) (maxFallbackDepth : ℤ)
    (hset : ∀ p, p ∈ ps ↔ p ∈ ps') (hapart : Apart (labelsOf ps))
    (h : (TrieData.new env strictRoute segmentPattern maxFallbackDepth).addAll env ps = some t)
    (h' : (TrieData.new env strictRoute segmentPattern maxFallbackDepth).addAll env ps' = some t')
    (path : Text) (o : Option Seen) : MayAnswer env t path o ↔ MayAnswer env t' path o := by
  have hnew := new_ok (M := M) env strictRoute segmentPattern maxFallbackDepth
  have hempty := new_shape (M := M) env strictRoute segmentPattern maxFallbackDepth
  obtain ⟨ht, hs⟩ := addAll_shape hempty hnew hapart h
  obtain ⟨ht', hs'⟩ := addAll_shape hempty hnew (labelsOf_congr hset ▸ hapart) h'
  rw [List.nil_append, ← knownOf_congr hset, ← endsOf_congr hset] at hs'
  have hg := addAll_grows hnew h
  have hg' := addAll_grows hnew h'
  have hstrict : t'.strictRoute = t.strictRoute := hg'.strictRoute.trans hg.strictRoute.symm
  have hdepth : t'.maxFallbackDepth = t.maxFallbackDepth :=
    hg'.maxFallbackDepth.trans hg.maxFallbackDepth.symm
  exact ⟨hs.mayAnswer hs' ht ht' hstrict hdepth,
    hs'.mayAnswer hs ht' ht hstrict.symm hdepth.symm⟩

/-- The texts of a label. -/
def Label.texts : Label → List Text
  | literal key => [key]
  | param name regex => [name, regex]

/-- Labels without a NUL that compare as equal are equal. -/
theorem Label.eq_of_same {l l' : Label} (hl : ∀ s ∈ l.texts, (0 : UInt8) ∉ s)
    (hl' : ∀ s ∈ l'.texts, (0 : UInt8) ∉ s) (hsame : l.same l' = true) : l = l' := by
  have hname : ∀ {a b : Text}, (0 : UInt8) ∉ a → (0 : UInt8) ∉ b → sameName a b = true → a = b := by
    intro a b ha hb hab
    rwa [sameName, beq_iff_eq, cstr_eq_self ha, cstr_eq_self hb] at hab
  cases l with
  | literal key =>
      cases l' with
      | literal key' => rw [hname (hl _ (by simp [texts])) (hl' _ (by simp [texts])) hsame]
      | param name' regex' => cases hsame
  | param name regex =>
      cases l' with
      | literal key' => cases hsame
      | param name' regex' =>
          obtain ⟨h₁, h₂⟩ := Bool.and_eq_true_iff.mp hsame
          rw [hname (hl _ (by simp [texts])) (hl' _ (by simp [texts])) h₁,
            hname (hl _ (by simp [texts])) (hl' _ (by simp [texts])) h₂]

/-- The texts of a label are parts of the segment. -/
theorem Label.subset_of_ofSegment {segment s : Text} {l : Label}
    (h : Label.ofSegment segment = some l) (hs : s ∈ l.texts) : s ⊆ segment := by
  have hfrag : fragOf segment ⊆ segment := by
    rw [fragOf]
    split_ifs
    · exact List.nil_subset _
    · exact List.Subset.refl _
  rw [ofSegment] at h
  split_ifs at h with hhead
  · cases hparts : colonParts (fragOf segment) with
    | error e =>
        rw [hparts] at h
        cases h
    | ok parts =>
        obtain ⟨name, regex⟩ := parts
        rw [hparts] at h
        obtain rfl := Option.some.inj h
        refine List.Subset.trans ?_ hfrag
        refine List.Subset.trans ?_ (List.drop_subset 1 _)
        rw [colonParts] at hparts
        dsimp only at hparts
        split at hparts
        · cases hparts
        split_ifs at hparts
        · obtain ⟨rfl, rfl⟩ := Prod.ext_iff.mp (Except.ok.inj hparts)
          rcases List.mem_pair.mp hs with rfl | rfl
          · exact List.take_subset _ _
          · exact List.Subset.trans (List.take_subset _ _) (List.drop_subset _ _)
        · obtain ⟨rfl, rfl⟩ := Prod.ext_iff.mp (Except.ok.inj hparts)
          rcases List.mem_pair.mp hs with rfl | rfl
          · exact List.Subset.refl _
          · exact List.nil_subset _
  · obtain rfl := Option.some.inj h
    rw [List.mem_singleton.mp hs]
    exact hfrag

/-- **Patterns without a NUL have labels that are apart.** -/
theorem apart_of_nul_free (h : ∀ p ∈ ps, (0 : UInt8) ∉ p) : Apart (labelsOf ps) := by
  have htexts : ∀ l ∈ labelsOf ps, ∀ s ∈ l.texts, (0 : UInt8) ∉ s := by
    rintro l ⟨p, hp, segment, hsegment, hl⟩ s hs hzero
    refine h p hp ?_
    have hmem := subset_of_mem_stringSplit hsegment (Label.subset_of_ofSegment hl hs hzero)
    exact List.mem_of_mem_filter ((List.dropWhile_suffix _).subset hmem)
  exact fun l hl l' hl' hsame => Label.eq_of_same (htexts l hl) (htexts l' hl') hsame

end Main

/-! ### Two orders -/

/-- The trie that the patterns were added to. -/
def added (env : Env) (ps : List Text) : TrieData Unit :=
  ((TrieData.new env true (ascii "[A-Za-z0-9._~\\-]+") 100).addAll env ps).getD
    (.new env true (ascii "[A-Za-z0-9._~\\-]+") 100)

theorem mayAnswer_swapped :
    MayAnswer anyName (added anyName [ascii "/a/b", ascii "/:x/c"]) (ascii "/d/c")
        (some ⟨some (some [.param (ascii "x") [], .literal (ascii "c")]),
          [(ascii "x", ascii "d")], false⟩) ↔
      MayAnswer anyName (added anyName [ascii "/:x/c", ascii "/a/b"]) (ascii "/d/c")
        (some ⟨some (some [.param (ascii "x") [], .literal (ascii "c")]),
          [(ascii "x", ascii "d")], false⟩) := by
  have hset : ∀ p, p ∈ [ascii "/a/b", ascii "/:x/c"] ↔ p ∈ [ascii "/:x/c", ascii "/a/b"] := by
    simp [or_comm]
  exact mayAnswer_order true (ascii "[A-Za-z0-9._~\\-]+") 100 hset
    (apart_of_nul_free (by decide)) rfl rfl _ _

/-- A world with the default pattern of a segment, in which every other constraint is a text and
accepts this text only. -/
def literalConstraints : Env where
  regexMatch s regex := regex == ascii "[A-Za-z0-9._~\\-]+" || s == regex
  randomStr := anyName.randomStr
  length_randomStr := anyName.length_randomStr

/-- The constraints `x\0y` and `x\0z` compare as equal, so that the one that was added first is the
constraint of the node. -/
theorem order_of_constraints :
    ∃ t t' : TrieData Unit,
      (TrieData.new literalConstraints true (ascii "[A-Za-z0-9._~\\-]+") 100).addAll
        literalConstraints [ascii "/:a(x\x00y)", ascii "/:a(x\x00z)"] = some t ∧
      (TrieData.new literalConstraints true (ascii "[A-Za-z0-9._~\\-]+") 100).addAll
        literalConstraints [ascii "/:a(x\x00z)", ascii "/:a(x\x00y)"] = some t' ∧
      ¬ ∀ o, MayAnswer literalConstraints t (ascii "/x\x00y") o ↔
        MayAnswer literalConstraints t' (ascii "/x\x00y") o := by
  refine ⟨added literalConstraints [ascii "/:a(x\x00y)", ascii "/:a(x\x00z)"],
    added literalConstraints [ascii "/:a(x\x00z)", ascii "/:a(x\x00y)"], rfl, rfl, fun h => ?_⟩
  have hfound : MayAnswer literalConstraints
      (added literalConstraints [ascii "/:a(x\x00y)", ascii "/:a(x\x00z)"]) (ascii "/x\x00y")
        (some ⟨some (some [.param (ascii "a") (ascii "x\x00y")]),
          [(ascii "a", ascii "x\x00y")], false⟩) := ⟨fun _ _ => none, none, by decide⟩
  obtain ⟨garbage, indeterminate, hmatch⟩ := (h _).mp hfound
  have hmissed : (added literalConstraints [ascii "/:a(x\x00z)", ascii "/:a(x\x00y)"]).matchPath
      literalConstraints garbage indeterminate (ascii "/x\x00y") = some { node := none } := rfl
  rw [hmissed] at hmatch
  cases hmatch

end ArchNet.Routing

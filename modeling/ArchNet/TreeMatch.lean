import ArchNet.EcmaScript
import Mathlib.Data.List.Nodup
import Mathlib.Logic.Function.Basic

/-!
# Matching a Pattern of the Tree Router

`Router::match_and_parse` of `http/router/router.h`: a pattern is compiled to a regular
expression, piece by piece, and the expression is matched with the request URL.

## Conventions

The regular expressions that `EcmaScript.parse` reads are matched by `EcmaScript.fullMatch`. What
`std::regex` does with any other expression is a parameter (`beyond`): it refuses it, with the
exception `std::regex_error`, or matches it in some way. A result `none` of `matchAndParse` is
that exception.

The loop over the path finds the pieces that `utils::splitPattern` finds.

## Main definitions

* `matchAndParse`: the code, with `Compiled.piece`, the body of its loop.
* `Segment`: a literal segment or a `:name` segment; `Consists`: the URLs of a pattern.

## Main results

* `matchAndParse_iff`: **a pattern is matched right exactly if no literal segment is empty or
  contains a special character**, for the expressions that can be read; without special
  characters the expression is always read.
-/

open EcmaScript

namespace ArchNet.TreeRouter

/-! ### The code -/

/-- The byte `'/'`. -/
def slash : UInt8 := 47

/-- The byte `':'`. -/
def colon : UInt8 := 58

/-- `utils::splitPattern`: the pieces between the slashes, without an empty one at the end. -/
def splitPattern : Text → List Text
  | [] => []
  | c :: s =>
      if c = slash then [] :: splitPattern s
      else
        match splitPattern s with
        | [] => [[c]]
        | piece :: pieces => (c :: piece) :: pieces

/-- `ParamsMapType`. -/
abbrev Params := Text → Option Text

/-- `matchName` and `pattern`. -/
structure Compiled where
  matchName : List Text := []
  pattern : Text := []

/-- `idKey`. -/
def idKey : Text := [105, 100]

/-- The class of `idPattern` and `defaultPattern`. -/
def kindOf (name : Text) : Kind := if name = idKey then .digit else .word

/-- `idPattern` and `defaultPattern`: `[\d]+` and `[\w]+`. -/
def patternOf (kind : Kind) : Text := [91, 92, kind.letter, 93, 43]

/-- One piece of the path. -/
def Compiled.piece (c : Compiled) (str : Text) : Compiled :=
  if str = [] then c
  else if str.head? = some 123 ∧ str.getLast? = some 125 then
    let matchStr := (str.drop 1).take (str.length - 2)
    if colon ∈ matchStr then
      { matchName := c.matchName ++ [matchStr.takeWhile (· != colon)]
        pattern := c.pattern ++ ([slash, 40] ++ (matchStr.dropWhile (· != colon)).drop 1 ++ [41]) }
    else c
  else if str.head? = some colon then
    { matchName := c.matchName ++ [str.drop 1]
      pattern := c.pattern ++ ([slash, 40] ++ patternOf (kindOf (str.drop 1)) ++ [41]) }
  else { c with pattern := c.pattern ++ slash :: str }

/-- The names and the expression of a path. -/
def compile (path : Text) : Compiled := (splitPattern path).foldl Compiled.piece {}

/-- `std::regex_match(url, subMatch, std::regex(pattern))`: the captures, if the URL matches. -/
def regexMatch (beyond : Text → Text → Option (Option (List Text))) (pattern url : Text) :
    Option (Option (List Text)) :=
  match parse pattern with
  | some r => some (fullMatch r url)
  | none => beyond pattern url

/-- `matchParams[matchName[i-1]] = subMatch.str(i)` for every `i`. -/
def bindAll (params : Params) : List Text → List Text → Params
  | name :: names, cap :: caps => bindAll (Function.update params name (some cap)) names caps
  | _, _ => params

/-- The result, given `subMatch`. -/
def Compiled.conclude (c : Compiled) (matchParams : Params) : Option (List Text) → Bool × Params
  | some caps =>
      if caps.length = c.matchName.length then (true, bindAll matchParams c.matchName caps)
      else (false, matchParams)
  | none => (false, matchParams)

/-- `Router::match_and_parse`. -/
def matchAndParse (beyond : Text → Text → Option (Option (List Text))) (requestUrl path : Text)
    (matchParams : Params) : Option (Bool × Params) :=
  (regexMatch beyond (compile path).pattern requestUrl).map ((compile path).conclude matchParams)

/-! ### Patterns and URLs -/

inductive Segment
  | literal (s : Text)
  | param (name : Text)

def Segment.text : Segment → Text
  | .literal s => s
  | .param name => colon :: name

/-- A segment as it stands in a path: a literal one is neither a `:name` nor in braces. -/
def Segment.Ok : Segment → Prop
  | .literal s => slash ∉ s ∧ s.head? ≠ some colon ∧
      ¬ (s.head? = some 123 ∧ s.getLast? = some 125)
  | .param name => slash ∉ name

/-- The part of a URL that a segment stands for. -/
def Segment.Accepts : Segment → Text → Prop
  | .literal s, t => t = s
  | .param name, t => t ≠ [] ∧ ∀ c ∈ t, (kindOf name).has c = true

def Segment.name? : Segment → Option Text
  | .literal _ => none
  | .param name => some name

/-- The names of a pattern. -/
def names (segs : List Segment) : List Text := segs.filterMap Segment.name?

/-- Every part with a slash before it. -/
def join (ts : List Text) : Text := ts.flatMap (slash :: ·)

/-- The path of a pattern. -/
def route (segs : List Segment) : Text := join (segs.map Segment.text)

/-- A URL consists of one part for each segment of a pattern. -/
def Consists (segs : List Segment) (url : Text) (ts : List Text) : Prop :=
  url = join ts ∧ List.Forall₂ Segment.Accepts segs ts

/-- `match_and_parse` returns whether a URL is one of the pattern's, and then binds each name to
its part. -/
def MatchesRoute (beyond : Text → Text → Option (Option (List Text))) (segs : List Segment)
    (url : Text) (params : Params) : Prop :=
  ∃ b params', matchAndParse beyond url (route segs) params = some (b, params') ∧
    (b = true ↔ ∃ ts, Consists segs url ts) ∧
    ∀ ts, Consists segs url ts →
      ∀ name t, (.param name, t) ∈ segs.zip ts → params' name = some t

/-- No literal segment contains a special character. -/
def Unspecial (segs : List Segment) : Prop :=
  ∀ s, .literal s ∈ segs → ∀ c ∈ s, c ∉ special

/-- No literal segment is empty or contains a special character. -/
def Plain (segs : List Segment) : Prop :=
  ∀ s, .literal s ∈ segs → s ≠ [] ∧ ∀ c ∈ s, c ∉ special

variable {beyond : Text → Text → Option (Option (List Text))} {segs : List Segment}
  {url : Text} {params : Params} {ts us caps : List Text} {s t : Text} {c : Compiled}

/-! ### The pieces of a path -/

@[simp] theorem route_nil : route [] = [] := rfl

theorem route_cons (g : Segment) : route (g :: segs) = slash :: (g.text ++ route segs) := rfl

/-- The piece in front of a slash is the first. -/
theorem splitPattern_append (hs : slash ∉ s) :
    splitPattern (s ++ slash :: t) = s :: splitPattern t := by
  induction s with
  | nil => rw [List.nil_append, splitPattern, if_pos rfl]
  | cons d s ih =>
      rw [List.mem_cons, not_or] at hs
      rw [List.cons_append, splitPattern, if_neg (Ne.symm hs.1), ih hs.2]

/-- A text without a slash is one piece. -/
theorem splitPattern_of_not_mem (hs : slash ∉ s) (hne : s ≠ []) : splitPattern s = [s] := by
  induction s with
  | nil => exact absurd rfl hne
  | cons d s ih =>
      rw [List.mem_cons, not_or] at hs
      rw [splitPattern, if_neg (Ne.symm hs.1)]
      by_cases hnil : s = []
      · rw [hnil, splitPattern]
      · rw [ih hs.2 hnil]

/-- A segment is one piece of a path. -/
theorem Segment.Ok.slash_not_mem {g : Segment} (h : g.Ok) : slash ∉ g.text := by
  cases g with
  | literal s => exact h.1
  | param name => exact fun hmem => (List.mem_cons.mp hmem).elim (by decide) h

/-- An empty piece is skipped. -/
theorem Compiled.piece_nil : c.piece [] = c := if_pos rfl

/-- A route is compiled segment by segment. -/
theorem foldl_piece_append (hok : ∀ g ∈ segs, g.Ok) (hs : slash ∉ s) :
    (splitPattern (s ++ route segs)).foldl Compiled.piece c =
      (segs.map Segment.text).foldl Compiled.piece (c.piece s) := by
  induction segs generalizing s c with
  | nil =>
      rw [route_nil, List.append_nil]
      by_cases hne : s = []
      · rw [hne, Compiled.piece_nil]; rfl
      · rw [splitPattern_of_not_mem hs hne]; rfl
  | cons g segs ih =>
      obtain ⟨hg, hsegs⟩ := List.forall_mem_cons.mp hok
      rw [route_cons, splitPattern_append hs, List.foldl_cons, ih hsegs hg.slash_not_mem,
        List.map_cons, List.foldl_cons]

/-- A path is compiled segment by segment. -/
theorem compile_route (hok : ∀ g ∈ segs, g.Ok) :
    compile (route segs) = (segs.map Segment.text).foldl Compiled.piece {} :=
  foldl_piece_append (s := []) hok List.not_mem_nil

/-! ### The parts of a URL -/

@[simp] theorem join_nil : join [] = [] := rfl

theorem join_cons : join (t :: ts) = slash :: (t ++ join ts) := rfl

/-- The first part of a URL ends at the next slash. -/
theorem append_join_inj (hs : slash ∉ s) (ht : slash ∉ t) (h : s ++ join ts = t ++ join us) :
    s = t ∧ join ts = join us := by
  have htake : ∀ {s : Text} {ts : List Text}, slash ∉ s →
      (s ++ join ts).takeWhile (· != slash) = s := by
    intro s ts hs
    have hjoin : (join ts).takeWhile (· != slash) = [] := by cases ts <;> rfl
    rw [List.takeWhile_append_of_pos, hjoin, List.append_nil]
    exact fun c hc => bne_iff_ne.mpr fun heq => hs (heq ▸ hc)
  have heq : s = t := by rw [← htake hs, h, htake ht]
  rw [heq] at h
  exact ⟨heq, List.append_cancel_left h⟩

/-- A URL falls into parts in one way. -/
theorem join_injective (hts : ∀ t ∈ ts, slash ∉ t) (hus : ∀ u ∈ us, slash ∉ u)
    (h : join ts = join us) : ts = us := by
  induction ts generalizing us with
  | nil =>
      cases us with
      | nil => rfl
      | cons u us => cases h
  | cons t ts ih =>
      cases us with
      | nil => cases h
      | cons u us =>
          obtain ⟨ht, hts⟩ := List.forall_mem_cons.mp hts
          obtain ⟨hu, hus⟩ := List.forall_mem_cons.mp hus
          obtain ⟨heq, hjoin⟩ := append_join_inj ht hu (List.cons.inj h).2
          rw [heq, ih hts hus hjoin]

/-- The only character of a class before which a part could end is none. -/
theorem Segment.Accepts.slash_not_mem {g : Segment} (hg : g.Ok) (h : g.Accepts t) :
    slash ∉ t := by
  cases g with
  | literal s => rw [show t = s from h]; exact hg.1
  | param name =>
      intro hmem
      have hhas := h.2 slash hmem
      have hslash : ∀ kind : Kind, kind.has slash = false := by intro kind; cases kind <;> rfl
      rw [hslash] at hhas
      cases hhas

/-- What a segment accepts has no slash. -/
theorem slash_not_mem_of_forall₂ (hok : ∀ g ∈ segs, g.Ok)
    (h : List.Forall₂ Segment.Accepts segs ts) : ∀ t ∈ ts, slash ∉ t := by
  induction h with
  | nil => exact fun t ht => absurd ht List.not_mem_nil
  | cons hg _ ih =>
      obtain ⟨hok₁, hoks⟩ := List.forall_mem_cons.mp hok
      exact List.forall_mem_cons.mpr ⟨hg.slash_not_mem hok₁, ih hoks⟩

/-- A URL of a pattern has one decomposition. -/
theorem Consists.unique (hok : ∀ g ∈ segs, g.Ok) (h : Consists segs url ts)
    (h' : Consists segs url us) : ts = us :=
  join_injective (slash_not_mem_of_forall₂ hok h.2) (slash_not_mem_of_forall₂ hok h'.2)
    (h.1.symm.trans h'.1)

/-! ### The compiled expression -/

/-- The characters of a text that stand for themselves. -/
def ordinary (s : Text) : List Ordinary :=
  s.filterMap fun c => if h : c ∉ special then some ⟨c, h⟩ else none

/-- Ordinary characters are read back from a text without special ones. -/
theorem text_ordinary (hs : ∀ c ∈ s, c ∉ special) : EcmaScript.text (ordinary s) = s := by
  induction s with
  | nil => rfl
  | cons c s ih =>
      obtain ⟨hc, hs⟩ := List.forall_mem_cons.mp hs
      rw [ordinary, List.filterMap_cons_some (dif_pos hc)]
      exact congrArg (c :: ·) (ih hs)

/-- What a segment adds to the expression: an empty one adds nothing. -/
def Segment.chunk : Segment → Chunk
  | .literal s => .plain (if s = [] then [] else ordinary (slash :: s))
  | .param name => .capture (ordinary [slash]) (kindOf name)

theorem slash_not_special : slash ∉ special := by decide

/-- A piece with a colon adds a name and a group. -/
theorem piece_param (name : Text) : c.piece (colon :: name) =
    { matchName := c.matchName ++ [name]
      pattern := c.pattern ++ (Segment.param name).chunk.text } := by
  have hbrace : ¬ ((colon :: name).head? = some 123 ∧ (colon :: name).getLast? = some 125) :=
    fun h => absurd (Option.some.inj h.1) (by decide)
  rw [Compiled.piece, if_neg (List.cons_ne_nil _ _), if_neg hbrace, List.head?_cons, if_pos rfl]
  rfl

/-- A piece without special characters adds its text. -/
theorem piece_literal (hs : ∀ d ∈ s, d ∉ special) (hcolon : s.head? ≠ some colon) :
    c.piece s = { c with pattern := c.pattern ++ (Segment.literal s).chunk.text } := by
  by_cases hnil : s = []
  · rw [hnil, Compiled.piece_nil]
    exact congrArg (Compiled.mk c.matchName) (List.append_nil _).symm
  · have hbrace : ¬ (s.head? = some 123 ∧ s.getLast? = some 125) :=
      fun h => hs 123 (List.mem_of_mem_head? h.1) (by decide)
    have htext : (Segment.literal s).chunk.text = slash :: s := by
      rw [Segment.chunk, if_neg hnil]
      exact text_ordinary (List.forall_mem_cons.mpr ⟨slash_not_special, hs⟩)
    rw [Compiled.piece, if_neg hnil, if_neg hbrace, if_neg hcolon, htext]

/-- What `Compile` makes of a route: its names in order, and its chunks one behind the other. -/
theorem foldl_piece (hok : ∀ g ∈ segs, g.Ok) (hun : Unspecial segs) :
    (segs.map Segment.text).foldl Compiled.piece c =
      { matchName := c.matchName ++ names segs
        pattern := c.pattern ++ (segs.map Segment.chunk).flatMap Chunk.text } := by
  induction segs generalizing c with
  | nil =>
      rw [names, List.filterMap_nil, List.append_nil, List.map_nil, List.map_nil,
        List.flatMap_nil, List.append_nil]
      rfl
  | cons g segs ih =>
      obtain ⟨hg, hsegs⟩ := List.forall_mem_cons.mp hok
      have hrest := fun c => @ih c hsegs fun s hs => hun s (List.mem_cons_of_mem _ hs)
      cases g with
      | literal s =>
          have hs := hun s (List.mem_cons_self ..)
          rw [List.map_cons, List.foldl_cons, Segment.text, piece_literal hs hg.2.1, hrest,
            List.map_cons, List.flatMap_cons, List.append_assoc]
          rfl
      | param name =>
          rw [List.map_cons, List.foldl_cons, Segment.text, piece_param, hrest, List.map_cons,
            List.flatMap_cons, List.append_assoc, List.append_assoc]
          rfl

/-- **The expression of a pattern without special characters** is a sequence of plain texts and
captured classes. -/
theorem compile_unspecial (hok : ∀ g ∈ segs, g.Ok) (hun : Unspecial segs) :
    compile (route segs) = { matchName := names segs
                             pattern := (segs.map Segment.chunk).flatMap Chunk.text } := by
  rw [compile_route hok, foldl_piece hok hun]
  rfl

/-- The pattern of a route without special characters is parsed to the sequence of its chunks. -/
theorem parse_unspecial (hok : ∀ g ∈ segs, g.Ok) (hun : Unspecial segs) :
    parse (compile (route segs)).pattern =
      some (sequence ((segs.map Segment.chunk).flatMap Chunk.terms)) := by
  rw [compile_unspecial hok hun, parse_chunks]

/-! ### Matching -/

/-- Where the pattern is parsed, a URL is matched against the expression. -/
theorem matchAndParse_of_parse (beyond : Text → Text → Option (Option (List Text))) (url : Text)
    (params : Params) {path : Text} {r : Re} (h : parse (compile path).pattern = some r) :
    matchAndParse beyond url path params =
      some ((compile path).conclude params (fullMatch r url)) := by
  rw [matchAndParse, regexMatch, h]
  rfl

/-- The URL matches if and only if the expression does, with a capture for each name. -/
theorem conclude_eq_true (params : Params) {m : Option (List Text)} :
    (c.conclude params m).1 = true ↔ ∃ caps, m = some caps ∧ caps.length = c.matchName.length := by
  cases m with
  | none => exact iff_of_false Bool.false_ne_true fun ⟨caps, hcaps, _⟩ => by cases hcaps
  | some caps =>
      rw [Compiled.conclude]
      by_cases hlength : caps.length = c.matchName.length
      · rw [if_pos hlength]
        exact iff_of_true rfl ⟨caps, rfl, hlength⟩
      · rw [if_neg hlength]
        refine iff_of_false Bool.false_ne_true ?_
        rintro ⟨caps', hcaps, hlength'⟩
        cases hcaps
        exact hlength hlength'

/-- The ways to match the expression of a pattern without special characters. -/
theorem mem_of_fullMatch_unspecial
    (h : fullMatch (sequence ((segs.map Segment.chunk).flatMap Chunk.terms)) url = some caps) :
    ∃ us, url = us.flatten ∧ List.Forall₂ Chunk.Accepts (segs.map Segment.chunk) us ∧
      caps = (List.zipWith Chunk.captured (segs.map Segment.chunk) us).flatten := by
  obtain ⟨us, hurl, hus, hcaps⟩ := mem_outcomes_chunks.mp (mem_of_fullMatch h)
  exact ⟨us, hurl.trans (List.append_nil _), hus, hcaps⟩

/-- A segment of a plain pattern matches a slash and its part. -/
theorem accepts_chunk {g : Segment} (hplain : Plain [g]) :
    g.chunk.Accepts s ↔ ∃ t, s = slash :: t ∧ g.Accepts t := by
  cases g with
  | literal l =>
      obtain ⟨hnil, hl⟩ := hplain l (List.mem_singleton_self _)
      have htext : EcmaScript.text (ordinary (slash :: l)) = slash :: l :=
        text_ordinary (List.forall_mem_cons.mpr ⟨slash_not_special, hl⟩)
      rw [Segment.chunk, if_neg hnil, Chunk.Accepts, htext]
      exact ⟨fun h => ⟨l, h, rfl⟩, fun ⟨t, h, ht⟩ => h.trans (congrArg (slash :: ·) ht)⟩
  | param name =>
      exact Iff.rfl

theorem Plain.head {g : Segment} (h : Plain (g :: segs)) : Plain [g] :=
  fun s hs => h s (by rw [List.mem_singleton.mp hs]; exact List.mem_cons_self ..)

theorem Plain.tail {g : Segment} (h : Plain (g :: segs)) : Plain segs :=
  fun s hs => h s (List.mem_cons_of_mem _ hs)

/-- A plain route has no special characters. -/
theorem Plain.unspecial (h : Plain segs) : Unspecial segs := fun s hs => (h s hs).2

/-- What the chunks of a plain route accept is what its segments accept, with a slash in front of
each. -/
theorem forall₂_chunk (hplain : Plain segs) :
    List.Forall₂ Chunk.Accepts (segs.map Segment.chunk) us ↔
      ∃ ts : List Text, us = ts.map (slash :: ·) ∧ List.Forall₂ Segment.Accepts segs ts := by
  induction segs generalizing us with
  | nil =>
      constructor
      · intro h
        cases h
        exact ⟨[], rfl, .nil⟩
      · rintro ⟨ts, rfl, hts⟩
        cases hts
        exact .nil
  | cons g segs ih =>
      constructor
      · intro h
        cases h with
        | cons hg hsegs =>
            obtain ⟨t, rfl, ht⟩ := (accepts_chunk hplain.head).mp hg
            obtain ⟨ts, rfl, hts⟩ := (ih hplain.tail).mp hsegs
            exact ⟨t :: ts, rfl, .cons ht hts⟩
      · rintro ⟨ts, rfl, hts⟩
        cases hts with
        | cons ht hts =>
            exact .cons ((accepts_chunk hplain.head).mpr ⟨_, rfl, ht⟩)
              ((ih hplain.tail).mpr ⟨_, rfl, hts⟩)

/-- Segments behind slashes, one behind the other, are the path. -/
theorem flatten_map_slash : (ts.map (slash :: ·)).flatten = join ts := List.flatMap_def.symm

/-- What is captured of the parts of a URL. -/
def captures (segs : List Segment) (ts : List Text) : List Text :=
  (List.zipWith Chunk.captured (segs.map Segment.chunk) (ts.map (slash :: ·))).flatten

/-- There are as many captures as names. -/
theorem length_captures (h : List.Forall₂ Segment.Accepts segs ts) :
    (captures segs ts).length = (names segs).length := by
  induction h with
  | nil => rfl
  | @cons g t segs ts _ _ ih =>
      cases g with
      | literal s => exact ih
      | param name => exact congrArg Nat.succ ih

/-- A name that is not bound keeps its value. -/
theorem bindAll_of_not_mem {ns : List Text} (h : t ∉ ns) : bindAll params ns caps t = params t := by
  induction ns generalizing params caps with
  | nil => rw [bindAll]; rintro _ _ _ _ ⟨⟩
  | cons n ns ih =>
      rw [List.mem_cons, not_or] at h
      cases caps with
      | nil => rw [bindAll]; rintro _ _ _ _ _ ⟨⟩
      | cons cap caps => rw [bindAll, ih h.2, Function.update_of_ne h.1]

/-- **Each name is bound to its part.** -/
theorem bindAll_captures (hnames : (names segs).Nodup) (h : List.Forall₂ Segment.Accepts segs ts)
    {name : Text} (hmem : (.param name, t) ∈ segs.zip ts) :
    bindAll params (names segs) (captures segs ts) name = some t := by
  induction h generalizing params with
  | nil => cases hmem
  | @cons g u segs ts _ _ ih =>
      cases g with
      | literal s =>
          cases hmem with
          | tail _ hmem => exact ih hnames hmem
      | param n =>
          have hcons : (n :: names segs).Nodup := hnames
          obtain ⟨hn, hnames⟩ := List.nodup_cons.mp hcons
          have hstep : bindAll params (names (.param n :: segs)) (captures (.param n :: segs)
              (u :: ts)) = bindAll (Function.update params n (some u)) (names segs)
                (captures segs ts) := rfl
          rw [hstep]
          cases hmem with
          | head => rw [bindAll_of_not_mem hn, Function.update_self]
          | tail _ hmem => exact ih hnames hmem

/-- The full matches of a plain pattern are its URLs. -/
theorem fullMatch_plain (hok : ∀ g ∈ segs, g.Ok) (hplain : Plain segs) :
    fullMatch (sequence ((segs.map Segment.chunk).flatMap Chunk.terms)) url = some caps ↔
      ∃ ts, Consists segs url ts ∧ caps = captures segs ts := by
  constructor
  · intro h
    obtain ⟨us, rfl, hus, rfl⟩ := mem_of_fullMatch_unspecial h
    obtain ⟨ts, rfl, hts⟩ := (forall₂_chunk hplain).mp hus
    exact ⟨ts, ⟨flatten_map_slash, hts⟩, rfl⟩
  · rintro ⟨ts, hurl, rfl⟩
    have hmem : (captures segs ts, []) ∈ outcomes url.length
        (sequence ((segs.map Segment.chunk).flatMap Chunk.terms)) url :=
      mem_outcomes_chunks.mpr ⟨_, by rw [flatten_map_slash, List.append_nil, hurl.1],
        (forall₂_chunk hplain).mpr ⟨ts, rfl, hurl.2⟩, rfl⟩
    obtain ⟨caps', hcaps'⟩ := exists_fullMatch hmem
    obtain ⟨us, hus, hchunks, rfl⟩ := mem_of_fullMatch_unspecial hcaps'
    obtain ⟨us, rfl, hsegs⟩ := (forall₂_chunk hplain).mp hchunks
    rw [flatten_map_slash] at hus
    rw [hcaps', hurl.unique hok ⟨hus, hsegs⟩]
    rfl

/-- **A plain pattern is matched right.** -/
theorem matchesRoute_of_plain (hok : ∀ g ∈ segs, g.Ok) (hnames : (names segs).Nodup)
    (hplain : Plain segs) : MatchesRoute beyond segs url params := by
  have hresult := matchAndParse_of_parse beyond url params
    (parse_unspecial hok hplain.unspecial)
  rw [compile_unspecial hok hplain.unspecial] at hresult
  cases hmatch : fullMatch (sequence ((segs.map Segment.chunk).flatMap Chunk.terms)) url with
  | some caps =>
      obtain ⟨ts, hurl, rfl⟩ := (fullMatch_plain hok hplain).mp hmatch
      rw [hmatch] at hresult
      rw [Compiled.conclude] at hresult
      refine ⟨true, _, hresult.trans (congrArg some (if_pos (length_captures hurl.2))),
        iff_of_true rfl ⟨ts, hurl⟩, ?_⟩
      intro us hus name t hmem
      rw [hurl.unique hok hus]
      exact bindAll_captures hnames hus.2 hmem
  | none =>
      have hnone : ∀ ts, ¬ Consists segs url ts := by
        intro ts hurl
        rw [(fullMatch_plain hok hplain).mpr ⟨ts, hurl, rfl⟩] at hmatch
        cases hmatch
      rw [hmatch] at hresult
      exact ⟨false, params, hresult, iff_of_false Bool.false_ne_true fun ⟨ts, h⟩ => hnone ts h,
        fun ts h => absurd h (hnone ts)⟩

/-! ### Special characters and empty segments -/

/-- A URL of a pattern: `1` for every parameter. -/
def Segment.sample : Segment → Text
  | .literal s => s
  | .param _ => [49]

/-- The samples of its segments make up a path of the route. -/
theorem consists_sample (segs : List Segment) : Consists segs (join (segs.map Segment.sample))
    (segs.map Segment.sample) := by
  refine ⟨rfl, ?_⟩
  induction segs with
  | nil => exact .nil
  | cons g segs ih =>
      refine .cons ?_ ih
      cases g with
      | literal s => rfl
      | param name =>
          refine ⟨List.cons_ne_nil _ _, List.forall_mem_singleton.mpr ?_⟩
          have hone : ∀ kind : Kind, kind.has 49 = (kind != .space) := by
            intro kind; cases kind <;> rfl
          rw [hone, kindOf]
          split <;> rfl

/-- Blunting a path is blunting its segments. -/
theorem map_blunt_join : (join ts).map blunt = join (ts.map (List.map blunt)) := by
  induction ts with
  | nil => rfl
  | cons t ts ih =>
      rw [join_cons, List.map_cons, List.map_append, ih, blunt_of_not_mem slash_not_special]
      rfl

/-- Blunting brings no slash into a segment. -/
theorem slash_not_mem_map_blunt (ht : slash ∉ t) : slash ∉ t.map blunt := by
  intro hmem
  obtain ⟨c, hc, hblunt⟩ := List.mem_map.mp hmem
  by_cases hspecial : c ∈ special
  · rw [blunt, if_pos hspecial] at hblunt
    exact absurd hblunt (by decide)
  · rw [blunt_of_not_mem hspecial] at hblunt
    exact ht (hblunt ▸ hc)

/-- A text without special characters is one that a hyphen for each leaves alone. -/
theorem not_special_of_map_blunt (h : s.map blunt = s) : ∀ c ∈ s, c ∉ special := by
  intro c hc hspecial
  have hblunt : blunt c = c := by
    obtain ⟨i, hi, rfl⟩ := List.getElem_of_mem hc
    have hget : (s.map blunt)[i]? = s[i]? := by rw [h]
    rw [List.getElem?_map, List.getElem?_eq_getElem hi] at hget
    exact Option.some.inj hget
  rw [blunt, if_pos hspecial] at hblunt
  rw [← hblunt] at hspecial
  exact absurd hspecial (by decide)

/-- The parts of a URL that matches after the replacement. -/
theorem map_blunt_of_forall₂ (h : List.Forall₂ Segment.Accepts segs
    ((segs.map Segment.sample).map (List.map blunt))) (hmem : .literal s ∈ segs) :
    s.map blunt = s := by
  induction segs with
  | nil => cases hmem
  | cons g segs ih =>
      cases h with
      | cons hg hsegs =>
          cases hmem with
          | head => exact hg
          | tail _ hmem => exact ih hsegs hmem

/-- **A pattern that is matched right has no special characters**: its expression does not tell
them from hyphens. -/
theorem unspecial_of_matchesRoute (hok : ∀ g ∈ segs, g.Ok) {r : Re}
    (hread : parse (compile (route segs)).pattern = some r)
    (h : ∀ url, MatchesRoute beyond segs url params) : Unspecial segs := by
  have haccepted : ∀ url, (∃ ts, Consists segs url ts) ↔ ∃ caps, fullMatch r url = some caps ∧
      caps.length = (compile (route segs)).matchName.length := by
    intro url
    obtain ⟨b, params', hresult, hb, -⟩ := h url
    rw [matchAndParse_of_parse beyond url params hread] at hresult
    rw [← hb, ← conclude_eq_true params, Option.some.inj hresult]
  obtain ⟨caps, hcaps, hlength⟩ := (haccepted _).mp ⟨_, consists_sample segs⟩
  obtain ⟨caps', hcaps', hlength'⟩ := fullMatch_map allowed_blunt hcaps
  obtain ⟨ts, hurl, hts⟩ := (haccepted _).mpr ⟨caps', hcaps', hlength'.trans hlength⟩
  rw [map_blunt_join] at hurl
  have hsample := slash_not_mem_of_forall₂ hok (consists_sample segs).2
  have hblunt : ∀ t ∈ (segs.map Segment.sample).map (List.map blunt), slash ∉ t := by
    intro t ht
    obtain ⟨u, hu, rfl⟩ := List.mem_map.mp ht
    exact slash_not_mem_map_blunt (hsample u hu)
  rw [← join_injective hblunt (slash_not_mem_of_forall₂ hok hts) hurl] at hts
  exact fun s hs => not_special_of_map_blunt (map_blunt_of_forall₂ hts hs)

/-- A path has as many slashes as segments. -/
theorem count_join (hts : ∀ t ∈ ts, slash ∉ t) : (join ts).count slash = ts.length := by
  induction ts with
  | nil => rfl
  | cons t ts ih =>
      obtain ⟨ht, hts⟩ := List.forall_mem_cons.mp hts
      rw [join_cons, List.count_cons_self, List.count_append, List.count_eq_zero.mpr ht, ih hts,
        Nat.zero_add, List.length_cons]

/-- What the segments match has a slash for each that is not empty. -/
theorem count_of_forall₂ (hok : ∀ g ∈ segs, g.Ok) (hun : Unspecial segs)
    (h : List.Forall₂ Chunk.Accepts (segs.map Segment.chunk) us) :
    us.flatten.count slash ≤ segs.length ∧
      (.literal [] ∈ segs → us.flatten.count slash < segs.length) := by
  induction segs generalizing us with
  | nil =>
      cases h
      exact ⟨le_rfl, fun h => by cases h⟩
  | cons g segs ih =>
      obtain ⟨hg, hsegs⟩ := List.forall_mem_cons.mp hok
      cases h with
      | @cons _ u _ us hu hus =>
          obtain ⟨hle, hlt⟩ := ih hsegs (fun s hs => hun s (List.mem_cons_of_mem _ hs)) hus
          rw [List.flatten_cons, List.count_append, List.length_cons]
          by_cases hnil : g = .literal []
          · have hempty : u = [] := by rw [hnil] at hu; exact hu
            rw [hempty, List.count_nil]
            exact ⟨by omega, fun _ => by omega⟩
          · have hplain : Plain [g] := by
              intro s hs
              obtain rfl := List.mem_singleton.mp hs
              exact ⟨fun heq => hnil (congrArg Segment.literal heq),
                hun s (List.mem_cons_self ..)⟩
            obtain ⟨t, rfl, ht⟩ := (accepts_chunk hplain).mp hu
            rw [List.count_cons_self, List.count_eq_zero.mpr (ht.slash_not_mem hg)]
            refine ⟨by omega, fun hmem => ?_⟩
            have hrest := (List.mem_cons.mp hmem).resolve_left (Ne.symm hnil)
            have hless := hlt hrest
            omega

/-- **A pattern that is matched right has no empty segment**: the expression leaves it out. -/
theorem plain_of_matchesRoute (hok : ∀ g ∈ segs, g.Ok) (hun : Unspecial segs)
    (h : ∀ url, MatchesRoute beyond segs url params) : Plain segs := by
  have hsample := slash_not_mem_of_forall₂ hok (consists_sample segs).2
  obtain ⟨b, params', hresult, hb, -⟩ := h (join (segs.map Segment.sample))
  rw [matchAndParse_of_parse beyond _ params (parse_unspecial hok hun)] at hresult
  have htrue := hb.mpr ⟨_, consists_sample segs⟩
  have hfirst := congrArg Prod.fst (Option.some.inj hresult)
  obtain ⟨caps, hcaps, -⟩ := (conclude_eq_true params).mp (hfirst.trans htrue)
  obtain ⟨us, hurl, hus, -⟩ := mem_of_fullMatch_unspecial hcaps
  have hcount := count_join hsample
  rw [hurl, List.length_map] at hcount
  intro s hs
  refine ⟨?_, hun s hs⟩
  rintro rfl
  exact absurd hcount (Nat.ne_of_lt ((count_of_forall₂ hok hun hus).2 hs))

/-- **A pattern of literal segments and `:name` segments with distinct names is matched right
exactly if no literal segment is empty or contains a special character**, as far as the
expressions can be read. -/
theorem matchAndParse_iff (beyond : Text → Text → Option (Option (List Text)))
    (segs : List Segment) (hok : ∀ g ∈ segs, g.Ok) (hnames : (names segs).Nodup) :
    (Plain segs → ∀ url params, MatchesRoute beyond segs url params) ∧
      ((parse (compile (route segs)).pattern).isSome = true →
        (∀ url params, MatchesRoute beyond segs url params) → Plain segs) := by
  refine ⟨fun hplain url params => matchesRoute_of_plain hok hnames hplain, ?_⟩
  intro hread h
  obtain ⟨r, hr⟩ := Option.isSome_iff_exists.mp hread
  have hall : ∀ url, MatchesRoute beyond segs url fun _ => none := fun url => h url _
  exact plain_of_matchesRoute hok (unspecial_of_matchesRoute hok hr hall) hall

/-- `/xxx/:p/yyy/:id`. -/
def letters : List Segment :=
  [.literal [120, 120, 120], .param [112], .literal [121, 121, 121], .param idKey]

/-- The URL is `/xxx/a/yyy/7`. -/
theorem letters_matched : MatchesRoute (fun _ _ => none) letters
    [47, 120, 120, 120, 47, 97, 47, 121, 121, 121, 47, 55] fun _ => none := by
  have hx : Segment.Ok (.literal [120, 120, 120]) := ⟨by decide, by decide, by decide⟩
  have hy : Segment.Ok (.literal [121, 121, 121]) := ⟨by decide, by decide, by decide⟩
  have hp : slash ∉ [112] := by decide
  have hid : slash ∉ idKey := by decide
  have hok : ∀ g ∈ letters, g.Ok := by
    simp only [letters, List.forall_mem_cons]
    exact ⟨hx, hp, hy, hid, fun g hg => absurd hg List.not_mem_nil⟩
  have hplain : Plain letters := by
    intro s hs
    simp only [letters, List.mem_cons, Segment.literal.injEq, reduceCtorEq, List.not_mem_nil,
      or_false, false_or] at hs
    obtain rfl | rfl := hs
    · refine ⟨List.cons_ne_nil _ _, fun c hc => ?_⟩
      rw [List.eq_of_mem_replicate (show c ∈ List.replicate 3 120 from hc)]
      decide
    · refine ⟨List.cons_ne_nil _ _, fun c hc => ?_⟩
      rw [List.eq_of_mem_replicate (show c ∈ List.replicate 3 121 from hc)]
      decide
  exact (matchAndParse_iff _ letters hok (by decide)).1 hplain _ _

/-- The pattern `/a.b` is matched with the URL `/axb`. -/
theorem dot_matched : Segment.Ok (.literal [97, 46, 98]) ∧
    matchAndParse (fun _ _ => none) [47, 97, 120, 98] [47, 97, 46, 98] (fun _ => none) =
      some (true, fun _ => none) ∧
    ¬ MatchesRoute (fun _ _ => none) [.literal [97, 46, 98]] [47, 97, 120, 98] fun _ => none := by
  have hresult : matchAndParse (fun _ _ => none) [47, 97, 120, 98] [47, 97, 46, 98]
      (fun _ => none) = some (true, fun _ => none) := rfl
  refine ⟨⟨by decide, by decide, by decide⟩, hresult, ?_⟩
  rintro ⟨b, params', h, hb, -⟩
  have hpath : route [.literal [97, 46, 98]] = [47, 97, 46, 98] := rfl
  rw [hpath, hresult] at h
  obtain ⟨rfl, -⟩ := Prod.mk.inj (Option.some.inj h)
  obtain ⟨ts, hurl, hts⟩ := hb.mp rfl
  cases hts with
  | cons ht hts =>
      cases hts
      rw [show _ = _ from ht] at hurl
      exact absurd hurl (by decide)

end ArchNet.TreeRouter

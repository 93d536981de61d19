import Mathlib.Data.List.Basic
import Mathlib.Data.List.Forall2
import Mathlib.Data.List.TakeWhile
import Mathlib.Data.Nat.Notation

/-!
# Regular Expressions

The part of the ECMAScript grammar of regular expressions that has neither quantified groups nor
references, over texts of bytes: alternatives, capturing groups, the two assertions about the
ends of a text, single characters, `.` and the classes `\d`, `\w`, `\s` and their complements,
each with at most one of the quantifiers `*`, `+` and `?`, greedy or not.

* `parse` reads an expression; it has no result where an expression is outside this part.
* `outcomes r t` — the ways to match the front of a text, in the order in which a backtracking
  matcher tries them; `fullMatch` is the first that takes the whole text, with what the groups
  captured.

Two facts are all that is needed of it. An expression cannot tell a special character from an
ordinary one that no class singles out: a text that matches still does after a replacement that
every `Matcher` allows (`fullMatch_map`). And a sequence of plain texts and captured classes is
read as such (`parse_chunks`) and matches exactly the texts that are made so
(`mem_outcomes_chunks`).
-/

namespace EcmaScript

abbrev Text := List UInt8

/-- The characters that the grammar gives a meaning: `^ $ \ . * + ? ( ) [ ] { } |`. -/
def special : Text := [94, 36, 92, 46, 42, 43, 63, 40, 41, 91, 93, 123, 125, 124]

/-- A character that stands for itself. -/
abbrev Ordinary := { c : UInt8 // c ∉ special }

inductive Kind
  | digit
  | word
  | space
  deriving Repr, DecidableEq

def Kind.has : Kind → UInt8 → Bool
  | .digit, c => 48 ≤ c && c ≤ 57
  | .word, c => (48 ≤ c && c ≤ 57) || (65 ≤ c && c ≤ 90) || (97 ≤ c && c ≤ 122) || c == 95
  | .space, c => c == 32 || (9 ≤ c && c ≤ 13)

/-- The letter of a class behind a backslash. -/
def Kind.letter : Kind → UInt8
  | .digit => 100
  | .word => 119
  | .space => 115

/-- What one character of a text is compared with. -/
inductive Matcher
  | char (c : Ordinary)
  | any
  | cls (kind : Kind) (complement : Bool)

def Matcher.accepts : Matcher → UInt8 → Bool
  | .char c, d => c.1 == d
  | .any, d => d != 10 && d != 13
  | .cls kind complement, d => kind.has d != complement

/-- How often in a row. -/
inductive Times
  | once
  | opt
  | star
  | plus

def Times.allows : Times → ℕ → Bool
  | .once, k => k == 1
  | .opt, k => k ≤ 1
  | .star, _ => true
  | .plus, k => 1 ≤ k

inductive Re
  | empty
  | start
  | stop
  | one (m : Matcher) (times : Times) (greedy : Bool)
  | seq (r s : Re)
  | alt (r s : Re)
  | group (r : Re)

/-- The number of groups. -/
def Re.groups : Re → ℕ
  | .seq r s | .alt r s => r.groups + s.groups
  | .group r => r.groups + 1
  | _ => 0

/-! ### Matching -/

/-- How many characters a quantified matcher may take, the first choice first. -/
def counts (times : Times) (greedy : Bool) (available : ℕ) : List ℕ :=
  let ks := (List.range (available + 1)).filter times.allows
  if greedy then ks.reverse else ks

/-- The ways to match the front of what is left of a text of length `n`: what the groups
captured, and what is left then. A group that was not taken captures the empty text. -/
def outcomes (n : ℕ) : Re → Text → List (List Text × Text)
  | .empty, t => [([], t)]
  | .start, t => if t.length = n then [([], t)] else []
  | .stop, t => if t = [] then [([], t)] else []
  | .one m times greedy, t =>
      (counts times greedy (t.takeWhile m.accepts).length).map fun k => ([], t.drop k)
  | .seq r s, t =>
      (outcomes n r t).flatMap fun p => (outcomes n s p.2).map fun q => (p.1 ++ q.1, q.2)
  | .alt r s, t =>
      ((outcomes n r t).map fun p => (p.1 ++ List.replicate s.groups [], p.2)) ++
        (outcomes n s t).map fun p => (List.replicate r.groups [] ++ p.1, p.2)
  | .group r, t =>
      (outcomes n r t).map fun p => (t.take (t.length - p.2.length) :: p.1, p.2)

/-- The captures of the first way to match a whole text. -/
def fullMatch (r : Re) (t : Text) : Option (List Text) :=
  ((outcomes t.length r t).find? fun p => p.2.isEmpty).map Prod.fst

/-! ### Reading an expression -/

/-- A symbol of an expression. -/
inductive Token
  | single (m : Matcher)
  | times (k : Times)
  | caret
  | dollar
  | bar
  | openGroup
  | closeGroup

/-- A character that is a symbol by itself. -/
def operator (c : UInt8) : Option Token :=
  if h : c ∉ special then some (.single (.char ⟨c, h⟩))
  else if c = 46 then some (.single .any)
  else if c = 42 then some (.times .star)
  else if c = 43 then some (.times .plus)
  else if c = 63 then some (.times .opt)
  else if c = 94 then some .caret
  else if c = 36 then some .dollar
  else if c = 124 then some .bar
  else if c = 40 then some .openGroup
  else if c = 41 then some .closeGroup
  else none

/-- The class that a letter behind a backslash names. -/
def classEscape (c : UInt8) : Option Matcher :=
  if c = 100 then some (.cls .digit false)
  else if c = 119 then some (.cls .word false)
  else if c = 115 then some (.cls .space false)
  else if c = 68 then some (.cls .digit true)
  else if c = 87 then some (.cls .word true)
  else if c = 83 then some (.cls .space true)
  else none

/-- The symbols of an expression: a class stands behind a backslash, alone or in brackets. -/
def lex : Text → Option (List Token)
  | [] => some []
  | c :: t =>
      if c = 92 then
        match t with
        | d :: t => (classEscape d).bind fun m => (lex t).map (.single m :: ·)
        | _ => none
      else if c = 91 then
        match t with
        | b :: d :: e :: t =>
            if b = 92 ∧ e = 93 then (classEscape d).bind fun m => (lex t).map (.single m :: ·)
            else none
        | _ => none
      else (operator c).bind fun token => (lex t).map (token :: ·)

/-- A term with its quantifier, or a symbol between terms. -/
inductive Item
  | term (r : Re)
  | bar
  | openGroup
  | closeGroup

/-- The terms of an expression. A quantifier stands behind a single matcher only, once. -/
def items : List Token → Option (List Item)
  | [] => some []
  | .single m :: .times k :: .times .opt :: ts => (items ts).map (.term (.one m k false) :: ·)
  | .single m :: .times k :: ts => (items ts).map (.term (.one m k true) :: ·)
  | .single m :: ts => (items ts).map (.term (.one m .once true) :: ·)
  | .times _ :: _ => none
  | .caret :: ts => (items ts).map (.term .start :: ·)
  | .dollar :: ts => (items ts).map (.term .stop :: ·)
  | .bar :: ts => (items ts).map (.bar :: ·)
  | .openGroup :: ts => (items ts).map (.openGroup :: ·)
  | .closeGroup :: ts => (items ts).map (.closeGroup :: ·)

/-- What has been read of a group: the alternatives before the current one, and that. -/
structure Frame where
  before : Option Re := none
  current : Re := .empty

def Frame.push (f : Frame) (r : Re) : Frame := { f with current := .seq f.current r }

def Frame.close (f : Frame) : Re :=
  match f.before with
  | none => f.current
  | some r => .alt r f.current

/-- The expression, with the groups that are open around the current one. -/
def assemble : List Frame → Frame → List Item → Option Re
  | [], f, [] => some f.close
  | _ :: _, _, [] => none
  | fs, f, .term r :: is => assemble fs (f.push r) is
  | fs, f, .bar :: is => assemble fs { before := some f.close } is
  | fs, f, .openGroup :: is => assemble (f :: fs) {} is
  | g :: fs, f, .closeGroup :: is => assemble fs (g.push (.group f.close)) is
  | [], _, .closeGroup :: _ => none

/-- The expression that a text stands for, where it is in the part that is covered. -/
def parse (t : Text) : Option Re := ((lex t).bind items).bind (assemble [] {})

/-! ### The ways to match -/

-- the equations of the definitions are made here, once for all the lemmas below
section
attribute [local simp] Re.groups counts outcomes fullMatch lex items assemble
end

variable {n k : ℕ} {t rest : Text} {caps : List Text} {r : Re} {rs : List Re} {f : UInt8 → UInt8}

/-- The numbers of rounds that are tried are those that are allowed. -/
theorem mem_counts {times : Times} {greedy : Bool} {available : ℕ} :
    k ∈ counts times greedy available ↔ k ≤ available ∧ times.allows k = true := by
  have hmem : k ∈ (List.range (available + 1)).filter times.allows ↔
      k ≤ available ∧ times.allows k = true := by
    rw [List.mem_filter, List.mem_range, Nat.lt_succ_iff]
  cases greedy with
  | false => exact hmem
  | true => exact List.mem_reverse.trans hmem

/-- A quantified matcher takes characters that it accepts, as many as the quantifier allows. -/
theorem mem_one {m : Matcher} {times : Times} {greedy : Bool} :
    (caps, rest) ∈ outcomes n (.one m times greedy) t ↔
      ∃ u, t = u ++ rest ∧ times.allows u.length = true ∧ (∀ c ∈ u, m.accepts c = true) ∧
        caps = [] := by
  simp only [outcomes, List.mem_map, mem_counts, Prod.mk.injEq]
  constructor
  · rintro ⟨k, ⟨hk, hallows⟩, rfl, rfl⟩
    have hlength : (t.take k).length = k :=
      List.length_take_of_le (Nat.le_trans hk (List.takeWhile_prefix _).length_le)
    have hprefix : t.take k <+: t.takeWhile m.accepts :=
      List.prefix_of_prefix_length_le (List.take_prefix ..) (List.takeWhile_prefix _)
        (Nat.le_trans (Nat.le_of_eq hlength) hk)
    exact ⟨t.take k, (List.take_append_drop k t).symm, by rwa [hlength],
      fun c hc => List.mem_takeWhile_imp (List.IsPrefix.subset hprefix hc), rfl⟩
  · rintro ⟨u, rfl, hallows, hu, rfl⟩
    refine ⟨u.length, ⟨?_, hallows⟩, rfl, List.drop_left⟩
    rw [List.takeWhile_append_of_pos hu, List.length_append]
    exact Nat.le_add_right ..

/-- A sequence is matched part by part. -/
theorem mem_seq {s : Re} : (caps, rest) ∈ outcomes n (.seq r s) t ↔
    ∃ caps₁ mid caps₂, (caps₁, mid) ∈ outcomes n r t ∧ (caps₂, rest) ∈ outcomes n s mid ∧
      caps = caps₁ ++ caps₂ := by
  simp only [outcomes, List.mem_flatMap, List.mem_map, Prod.mk.injEq]
  constructor
  · rintro ⟨⟨caps₁, mid⟩, hr, ⟨caps₂, rest⟩, hs, rfl, rfl⟩
    exact ⟨caps₁, mid, caps₂, hr, hs, rfl⟩
  · rintro ⟨caps₁, mid, caps₂, hr, hs, rfl⟩
    exact ⟨(caps₁, mid), hr, (caps₂, rest), hs, rfl, rfl⟩

/-- A group captures what it takes. -/
theorem mem_group : (caps, rest) ∈ outcomes n (.group r) t ↔
    ∃ caps', (caps', rest) ∈ outcomes n r t ∧
      caps = t.take (t.length - rest.length) :: caps' := by
  simp only [outcomes, List.mem_map, Prod.mk.injEq]
  constructor
  · rintro ⟨⟨caps', rest⟩, hr, rfl, rfl⟩
    exact ⟨caps', hr, rfl⟩
  · rintro ⟨caps', hr, rfl⟩
    exact ⟨(caps', rest), hr, rfl, rfl⟩

/-- Every way to match gives each group a text. -/
theorem length_of_mem_outcomes (h : (caps, rest) ∈ outcomes n r t) : caps.length = r.groups := by
  induction r generalizing t caps rest with
  | empty => rw [(Prod.mk.inj (List.mem_singleton.mp h)).1]; rfl
  | start =>
      rw [outcomes] at h
      split at h
      · rw [(Prod.mk.inj (List.mem_singleton.mp h)).1]; rfl
      · cases h
  | stop =>
      rw [outcomes] at h
      split at h
      · rw [(Prod.mk.inj (List.mem_singleton.mp h)).1]; rfl
      · cases h
  | one m times greedy =>
      obtain ⟨u, -, -, -, rfl⟩ := mem_one.mp h
      rfl
  | seq r s ihr ihs =>
      obtain ⟨caps₁, mid, caps₂, hr, hs, rfl⟩ := mem_seq.mp h
      rw [List.length_append, ihr hr, ihs hs, Re.groups]
  | alt r s ihr ihs =>
      simp only [outcomes, List.mem_append, List.mem_map, Prod.mk.injEq] at h
      obtain ⟨⟨caps₁, rest⟩, hr, rfl, -⟩ | ⟨⟨caps₁, rest⟩, hs, rfl, -⟩ := h
      · rw [List.length_append, List.length_replicate, ihr hr, Re.groups]
      · rw [List.length_append, List.length_replicate, ihs hs, Re.groups]
  | group r ih =>
      obtain ⟨caps', hr, rfl⟩ := mem_group.mp h
      rw [List.length_cons, ih hr, Re.groups]

/-- What a full match captures is captured on one of the ways to match. -/
theorem mem_of_fullMatch (h : fullMatch r t = some caps) :
    (caps, []) ∈ outcomes t.length r t := by
  obtain ⟨⟨caps, rest⟩, hfind, rfl⟩ := Option.map_eq_some_iff.mp h
  have hrest : rest = [] :=
    List.isEmpty_iff.mp (List.find?_some (p := fun p : List Text × Text => p.2.isEmpty) hfind)
  rw [hrest] at hfind ⊢
  exact List.mem_of_find?_eq_some hfind

/-- A text that can be matched as a whole is. -/
theorem exists_fullMatch (h : (caps, []) ∈ outcomes t.length r t) :
    ∃ caps, fullMatch r t = some caps := by
  cases hfind : (outcomes t.length r t).find? fun p => p.2.isEmpty with
  | some p => exact ⟨p.1, by rw [fullMatch, hfind]; rfl⟩
  | none => exact absurd rfl (List.find?_eq_none.mp hfind _ h)

/-! ### Replacing characters -/

/-- A replacement after which every matcher still accepts. -/
def Allowed (f : UInt8 → UInt8) : Prop :=
  ∀ (m : Matcher) (c : UInt8), m.accepts c = true → m.accepts (f c) = true

/-- **Every way to match is left** after a replacement. -/
theorem mem_outcomes_map (hf : Allowed f) (h : (caps, rest) ∈ outcomes n r t) :
    (caps.map (List.map f), rest.map f) ∈ outcomes n r (t.map f) := by
  induction r generalizing t caps rest with
  | empty =>
      obtain ⟨rfl, rfl⟩ := Prod.mk.inj (List.mem_singleton.mp h)
      exact List.mem_singleton_self _
  | start =>
      rw [outcomes] at h ⊢
      rw [List.length_map]
      split at h
      · obtain ⟨rfl, rfl⟩ := Prod.mk.inj (List.mem_singleton.mp h)
        rw [if_pos (by assumption)]
        exact List.mem_singleton_self _
      · cases h
  | stop =>
      rw [outcomes] at h
      split at h
      · obtain ⟨rfl, rfl⟩ := Prod.mk.inj (List.mem_singleton.mp h)
        rw [outcomes, if_pos (List.map_eq_nil_iff.mpr (by assumption))]
        exact List.mem_singleton_self _
      · cases h
  | one m times greedy =>
      obtain ⟨u, rfl, hallows, hu, rfl⟩ := mem_one.mp h
      refine mem_one.mpr ⟨u.map f, List.map_append, by rwa [List.length_map], ?_, rfl⟩
      intro c hc
      obtain ⟨d, hd, rfl⟩ := List.mem_map.mp hc
      exact hf m d (hu d hd)
  | seq r s ihr ihs =>
      obtain ⟨caps₁, mid, caps₂, hr, hs, rfl⟩ := mem_seq.mp h
      exact mem_seq.mpr ⟨_, _, _, ihr hr, ihs hs, List.map_append⟩
  | alt r s ihr ihs =>
      simp only [outcomes, List.mem_append, List.mem_map, Prod.mk.injEq] at h ⊢
      obtain ⟨⟨caps₁, rest⟩, hr, rfl, rfl⟩ | ⟨⟨caps₁, rest⟩, hs, rfl, rfl⟩ := h
      · exact .inl ⟨_, ihr hr, by simp, rfl⟩
      · exact .inr ⟨_, ihs hs, by simp, rfl⟩
  | group r ih =>
      obtain ⟨caps', hr, rfl⟩ := mem_group.mp h
      refine mem_group.mpr ⟨_, ih hr, ?_⟩
      rw [List.map_cons, List.map_take, List.length_map, List.length_map]

/-- **A text that matches still does after a replacement**, with as many captures. -/
theorem fullMatch_map (hf : Allowed f) (h : fullMatch r t = some caps) :
    ∃ caps', fullMatch r (t.map f) = some caps' ∧ caps'.length = caps.length := by
  have hmem := mem_of_fullMatch h
  have hmap := mem_outcomes_map hf hmem
  rw [← List.length_map (f := f)] at hmap
  obtain ⟨caps', h'⟩ := exists_fullMatch hmap
  exact ⟨caps', h', (length_of_mem_outcomes (mem_of_fullMatch h')).trans
    (length_of_mem_outcomes hmem).symm⟩

/-- The text with a hyphen for every special character. -/
def blunt (c : UInt8) : UInt8 := if c ∈ special then 45 else c

/-- A character that is not special stays. -/
theorem blunt_of_not_mem {c : UInt8} (h : c ∉ special) : blunt c = c := if_neg h

/-- **No matcher tells a special character from a hyphen.** -/
theorem allowed_blunt : Allowed blunt := by
  intro m c hc
  by_cases hspecial : c ∈ special
  · rw [blunt, if_pos hspecial]
    cases m with
    | char d => exact absurd hspecial (by rw [← eq_of_beq hc]; exact d.2)
    | any => rfl
    | cls kind complement =>
        have hkind : special.all (fun c => kind.has c == kind.has 45) = true := by
          cases kind <;> decide
        rw [Matcher.accepts, ← eq_of_beq (List.all_eq_true.mp hkind c hspecial)]
        exact hc
  · rwa [blunt_of_not_mem hspecial]

/-! ### Sequences of plain texts and captured classes -/

/-- A piece of an expression: a plain text, or a plain text and a group of characters of one
class behind it. -/
inductive Chunk
  | plain (s : List Ordinary)
  | capture (s : List Ordinary) (kind : Kind)

def text (s : List Ordinary) : Text := s.map Subtype.val

/-- `s`, or `s([\d]+)` and its kind. -/
def Chunk.text : Chunk → Text
  | .plain s => EcmaScript.text s
  | .capture s kind => EcmaScript.text s ++ [40, 91, 92, kind.letter, 93, 43, 41]

/-- The texts that a piece matches. -/
def Chunk.Accepts : Chunk → Text → Prop
  | .plain s, u => u = EcmaScript.text s
  | .capture s kind, u =>
      ∃ v, u = EcmaScript.text s ++ v ∧ v ≠ [] ∧ ∀ c ∈ v, kind.has c = true

/-- What a piece captures of a text that it matches. -/
def Chunk.captured : Chunk → Text → List Text
  | .plain _, _ => []
  | .capture s _, u => [u.drop s.length]

/-- The matchers of a plain text. -/
def chars (s : List Ordinary) : List Re := s.map fun c => .one (.char c) .once true

/-- The captured class. -/
def Kind.group (kind : Kind) : Re := .group (.seq .empty (.one (.cls kind false) .plus true))

def Chunk.terms : Chunk → List Re
  | .plain s => chars s
  | .capture s kind => chars s ++ [kind.group]

/-- The expression that terms in a row stand for. -/
def sequence (rs : List Re) : Re := rs.foldl .seq .empty

def Chunk.tokens : Chunk → List Token
  | .plain s => s.map fun c => .single (.char c)
  | .capture s kind => (s.map fun c => .single (.char c)) ++
      [.openGroup, .single (.cls kind false), .times .plus, .closeGroup]

def Chunk.items : Chunk → List Item
  | .plain s => (chars s).map .term
  | .capture s kind => (chars s).map .term ++
      [.openGroup, .term (.one (.cls kind false) .plus true), .closeGroup]

variable {ts : List Token} {is : List Item} {cs : List Chunk} {us : List Text}

/-- A character that is neither an escape nor a bracket is a token of its own. -/
theorem lex_operator {c : UInt8} (hback : c ≠ 92) (hbracket : c ≠ 91) :
    lex (c :: t) = (operator c).bind fun token => (lex t).map (token :: ·) := by
  rw [lex.eq_def]
  exact (if_neg hback).trans (if_neg hbracket)

/-- Ordinary text is read character by character. -/
theorem lex_text {s : List Ordinary} (h : lex t = some ts) :
    lex (text s ++ t) = some ((s.map fun c => .single (.char c)) ++ ts) := by
  induction s with
  | nil => exact h
  | cons c s ih =>
      have hback : c.1 ≠ 92 := fun hc => c.2 (hc ▸ by decide)
      have hbracket : c.1 ≠ 91 := fun hc => c.2 (hc ▸ by decide)
      have hcons : text (c :: s) ++ t = c.1 :: (text s ++ t) := rfl
      rw [hcons, lex_operator hback hbracket, operator, dif_pos c.2, Option.bind_some, ih]
      rfl

/-- A chunk is read as its tokens. -/
theorem lex_chunk {c : Chunk} (h : lex t = some ts) :
    lex (c.text ++ t) = some (c.tokens ++ ts) := by
  cases c with
  | plain s => exact lex_text h
  | capture s kind =>
      have hclose : lex (41 :: t) = some (.closeGroup :: ts) := by
        rw [lex_operator (by decide) (by decide), h]
        rfl
      have hclass : classEscape kind.letter = some (.cls kind false) := by cases kind <;> rfl
      have hgroup : lex ([40, 91, 92, kind.letter, 93, 43, 41] ++ t) =
          some ([.openGroup, .single (.cls kind false), .times .plus, .closeGroup] ++ ts) := by
        simp [lex, hclose, hclass, operator, special]
      rw [Chunk.text, Chunk.tokens, List.append_assoc, List.append_assoc]
      exact lex_text hgroup

/-- A matcher in front of what is read as terms has no quantifier. -/
theorem items_single {m : Matcher} (h : items ts = some is) :
    items (.single m :: ts) = some (.term (.one m .once true) :: is) := by
  cases ts with
  | nil => rw [items, h]; rfl; all_goals simp
  | cons token ts =>
      cases token with
      | times k => rw [items] at h; cases h
      | _ => rw [items, h]; rfl; all_goals simp

/-- Ordinary characters are terms. -/
theorem items_text {s : List Ordinary} (h : items ts = some is) :
    items ((s.map fun c => .single (.char c)) ++ ts) = some ((chars s).map .term ++ is) := by
  induction s with
  | nil => exact h
  | cons c s ih => exact items_single ih

/-- The tokens of a chunk are its items. -/
theorem items_chunk {c : Chunk} (h : items ts = some is) :
    items (c.tokens ++ ts) = some (c.items ++ is) := by
  cases c with
  | plain s => exact items_text h
  | capture s kind =>
      have hgroup : items ([.openGroup, .single (.cls kind false), .times .plus, .closeGroup] ++
          ts) = some ([.openGroup, .term (.one (.cls kind false) .plus true), .closeGroup] ++
            is) := by
        simp [items, h]
      rw [Chunk.tokens, Chunk.items, List.append_assoc, List.append_assoc]
      exact items_text hgroup

/-- Terms are pushed onto the frame. -/
theorem assemble_terms {fs : List Frame} {g : Frame} :
    assemble fs g (rs.map .term ++ is) = assemble fs (rs.foldl Frame.push g) is := by
  induction rs generalizing g with
  | nil => rfl
  | cons r rs ih => rw [List.map_cons, List.cons_append, assemble, ih, List.foldl_cons]

/-- The items of a chunk push its terms onto the frame. -/
theorem assemble_chunk {c : Chunk} {fs : List Frame} {g : Frame} :
    assemble fs g (c.items ++ is) = assemble fs (c.terms.foldl Frame.push g) is := by
  cases c with
  | plain s => exact assemble_terms
  | capture s kind =>
      rw [Chunk.items, Chunk.terms, List.append_assoc, assemble_terms, List.foldl_append]
      simp only [List.cons_append, List.nil_append, assemble]
      rfl

/-- Pushing terms changes the alternative that is being read only. -/
theorem current_foldl_push {g : Frame} :
    rs.foldl Frame.push g = { g with current := rs.foldl .seq g.current } := by
  induction rs generalizing g with
  | nil => rfl
  | cons r rs ih => rw [List.foldl_cons, ih]; rfl

/-- **A sequence of pieces is read as such.** -/
theorem parse_chunks :
    parse (cs.flatMap Chunk.text) = some (sequence (cs.flatMap Chunk.terms)) := by
  have hlex : lex (cs.flatMap Chunk.text) = some (cs.flatMap Chunk.tokens) := by
    induction cs with
    | nil => rfl
    | cons c cs ih => exact lex_chunk ih
  have hitems : items (cs.flatMap Chunk.tokens) = some (cs.flatMap Chunk.items) := by
    clear hlex
    induction cs with
    | nil => rfl
    | cons c cs ih => exact items_chunk ih
  have hassemble : ∀ g : Frame, assemble [] g (cs.flatMap Chunk.items) =
      some ((cs.flatMap Chunk.terms).foldl Frame.push g).close := by
    clear hlex hitems
    induction cs with
    | nil => intro g; rfl
    | cons c cs ih =>
        intro g
        rw [List.flatMap_cons, List.flatMap_cons, assemble_chunk, ih, List.foldl_append]
  rw [parse, hlex, Option.bind_some, hitems, Option.bind_some, hassemble, current_foldl_push]
  rfl

/-- Terms in a row match one after the other. -/
theorem mem_foldl_seq : (caps, rest) ∈ outcomes n (rs.foldl .seq r) t ↔
    ∃ caps₁ mid caps₂, (caps₁, mid) ∈ outcomes n r t ∧
      (caps₂, rest) ∈ outcomes n (sequence rs) mid ∧ caps = caps₁ ++ caps₂ := by
  induction rs generalizing r t caps rest with
  | nil =>
      constructor
      · exact fun h => ⟨caps, rest, [], h, List.mem_singleton_self _, (List.append_nil _).symm⟩
      · rintro ⟨caps₁, mid, caps₂, h, hempty, rfl⟩
        obtain ⟨rfl, rfl⟩ := Prod.mk.inj (List.mem_singleton.mp hempty)
        rwa [List.append_nil]
  | cons r' rs ih =>
      rw [List.foldl_cons, ih]
      constructor
      · rintro ⟨_, mid, caps₃, hseq, hrest, rfl⟩
        obtain ⟨caps₁, mid₁, caps₂, hr, hr', rfl⟩ := mem_seq.mp hseq
        refine ⟨caps₁, mid₁, caps₂ ++ caps₃, hr, ?_, List.append_assoc ..⟩
        have hempty : (caps₂, mid) ∈ outcomes n (.seq .empty r') mid₁ :=
          mem_seq.mpr ⟨[], mid₁, caps₂, List.mem_singleton_self _, hr', rfl⟩
        exact ih.mpr ⟨caps₂, mid, caps₃, hempty, hrest, rfl⟩
      · rintro ⟨caps₁, mid₁, _, hr, hseq, rfl⟩
        obtain ⟨caps₂, mid, caps₃, hempty, hrest, rfl⟩ := ih.mp hseq
        obtain ⟨_, _, caps₂, hnil, hr', rfl⟩ := mem_seq.mp hempty
        obtain ⟨rfl, rfl⟩ := Prod.mk.inj (List.mem_singleton.mp hnil)
        exact ⟨caps₁ ++ caps₂, mid, caps₃, mem_seq.mpr ⟨caps₁, _, caps₂, hr, hr', rfl⟩, hrest,
          (List.append_assoc ..).symm⟩

/-- Sequences one behind the other are matched one behind the other. -/
theorem mem_sequence_append {rs' : List Re} :
    (caps, rest) ∈ outcomes n (sequence (rs ++ rs')) t ↔
      ∃ caps₁ mid caps₂, (caps₁, mid) ∈ outcomes n (sequence rs) t ∧
        (caps₂, rest) ∈ outcomes n (sequence rs') mid ∧ caps = caps₁ ++ caps₂ := by
  rw [sequence, List.foldl_append]
  exact mem_foldl_seq

/-- A term alone. -/
theorem mem_sequence_singleton :
    (caps, rest) ∈ outcomes n (sequence [r]) t ↔ (caps, rest) ∈ outcomes n r t := by
  constructor
  · intro h
    obtain ⟨_, _, caps₂, hempty, hr, rfl⟩ := mem_seq.mp h
    obtain ⟨rfl, rfl⟩ := Prod.mk.inj (List.mem_singleton.mp hempty)
    exact hr
  · exact fun h => mem_seq.mpr ⟨[], t, caps, List.mem_singleton_self _, h, rfl⟩

/-- Ordinary characters match their text. -/
theorem mem_sequence_chars {s : List Ordinary} :
    (caps, rest) ∈ outcomes n (sequence (chars s)) t ↔ t = text s ++ rest ∧ caps = [] := by
  induction s generalizing t caps with
  | nil =>
      constructor
      · intro h
        obtain ⟨rfl, rfl⟩ := Prod.mk.inj (List.mem_singleton.mp h)
        exact ⟨rfl, rfl⟩
      · rintro ⟨rfl, rfl⟩
        exact List.mem_singleton_self _
  | cons c s ih =>
      have hcons : chars (c :: s) = [.one (.char c) .once true] ++ chars s := rfl
      rw [hcons, mem_sequence_append]
      constructor
      · rintro ⟨caps₁, mid, caps₂, hc, hs, rfl⟩
        obtain ⟨u, rfl, hlength, hu, rfl⟩ := mem_one.mp (mem_sequence_singleton.mp hc)
        obtain ⟨rfl, rfl⟩ := ih.mp hs
        obtain ⟨d, rfl⟩ := List.length_eq_one_iff.mp (eq_of_beq hlength)
        have hd : c.1 = d := eq_of_beq (hu d (List.mem_singleton_self d))
        rw [← hd]
        exact ⟨rfl, rfl⟩
      · rintro ⟨rfl, rfl⟩
        refine ⟨[], text s ++ rest, [], mem_sequence_singleton.mpr (mem_one.mpr
          ⟨[c.1], rfl, rfl, ?_, rfl⟩), ih.mpr ⟨rfl, rfl⟩, rfl⟩
        intro d hd
        rw [List.mem_singleton.mp hd]
        exact beq_self_eq_true c.1

/-- A group matches one or more characters of its kind, and captures them. -/
theorem mem_kind_group {kind : Kind} : (caps, rest) ∈ outcomes n kind.group t ↔
    ∃ v, t = v ++ rest ∧ v ≠ [] ∧ (∀ c ∈ v, kind.has c = true) ∧ caps = [v] := by
  have haccepts : ∀ c, (Matcher.cls kind false).accepts c = kind.has c := fun c => Bool.bne_false _
  rw [Kind.group, mem_group]
  constructor
  · rintro ⟨caps', hseq, rfl⟩
    obtain ⟨v, rfl, hlength, hv, rfl⟩ := mem_one.mp (mem_sequence_singleton.mp hseq)
    refine ⟨v, rfl, ?_, fun c hc => haccepts c ▸ hv c hc, ?_⟩
    · rintro rfl
      cases hlength
    · rw [List.length_append, Nat.add_sub_cancel, List.take_left]
  · rintro ⟨v, rfl, hne, hv, rfl⟩
    refine ⟨[], mem_sequence_singleton.mpr (mem_one.mpr ⟨v, rfl, ?_, ?_, rfl⟩), ?_⟩
    · exact decide_eq_true (List.length_pos_of_ne_nil hne)
    · exact fun c hc => (haccepts c).trans (hv c hc)
    · rw [List.length_append, Nat.add_sub_cancel, List.take_left]

/-- A chunk matches what it accepts, and captures what it should. -/
theorem mem_chunk {c : Chunk} : (caps, rest) ∈ outcomes n (sequence c.terms) t ↔
    ∃ u, t = u ++ rest ∧ c.Accepts u ∧ caps = c.captured u := by
  cases c with
  | plain s =>
      rw [Chunk.terms, mem_sequence_chars]
      constructor
      · rintro ⟨rfl, rfl⟩
        exact ⟨text s, rfl, rfl, rfl⟩
      · rintro ⟨u, rfl, rfl, rfl⟩
        exact ⟨rfl, rfl⟩
  | capture s kind =>
      have hdrop : ∀ v, (text s ++ v).drop s.length = v :=
        fun v => List.drop_left' (List.length_map ..)
      rw [Chunk.terms, mem_sequence_append]
      constructor
      · rintro ⟨caps₁, mid, caps₂, hs, hgroup, rfl⟩
        obtain ⟨rfl, rfl⟩ := mem_sequence_chars.mp hs
        obtain ⟨v, rfl, hne, hv, rfl⟩ := mem_kind_group.mp (mem_sequence_singleton.mp hgroup)
        refine ⟨text s ++ v, (List.append_assoc ..).symm, ⟨v, rfl, hne, hv⟩, ?_⟩
        rw [Chunk.captured, hdrop]
        rfl
      · rintro ⟨_, rfl, ⟨v, rfl, hne, hv⟩, rfl⟩
        refine ⟨[], v ++ rest, [v], mem_sequence_chars.mpr ⟨List.append_assoc .., rfl⟩,
          mem_sequence_singleton.mpr (mem_kind_group.mpr ⟨v, rfl, hne, hv, rfl⟩), ?_⟩
        rw [Chunk.captured, hdrop]
        rfl

/-- **A sequence of pieces matches exactly the texts that are made of pieces**, and captures the
parts of the captured classes. -/
theorem mem_outcomes_chunks :
    (caps, rest) ∈ outcomes n (sequence (cs.flatMap Chunk.terms)) t ↔
      ∃ us, t = us.flatten ++ rest ∧ List.Forall₂ Chunk.Accepts cs us ∧
        caps = (List.zipWith Chunk.captured cs us).flatten := by
  induction cs generalizing t caps with
  | nil =>
      constructor
      · intro h
        obtain ⟨rfl, rfl⟩ := Prod.mk.inj (List.mem_singleton.mp h)
        exact ⟨[], rfl, .nil, rfl⟩
      · rintro ⟨us, rfl, hus, rfl⟩
        cases hus
        exact List.mem_singleton_self _
  | cons c cs ih =>
      rw [List.flatMap_cons, mem_sequence_append]
      constructor
      · rintro ⟨caps₁, mid, caps₂, hc, hcs, rfl⟩
        obtain ⟨u, rfl, hu, rfl⟩ := mem_chunk.mp hc
        obtain ⟨us, rfl, hus, rfl⟩ := ih.mp hcs
        exact ⟨u :: us, (List.append_assoc ..).symm, .cons hu hus, rfl⟩
      · rintro ⟨us, rfl, hus, rfl⟩
        cases hus with
        | @cons _ u _ us hu hus =>
            exact ⟨_, us.flatten ++ rest, _,
              mem_chunk.mpr ⟨u, List.append_assoc .., hu, rfl⟩, ih.mpr ⟨us, rfl, hus, rfl⟩, rfl⟩

end EcmaScript

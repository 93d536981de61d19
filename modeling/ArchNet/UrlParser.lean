import ArchNet.Trie
import Mathlib.Logic.Function.Basic

/-!
# URLs in the HTTP Parser

The part of `http_parser_execute` that reads the URL of a request line, `parse_url_char` and
`http_parser_parse_url` of `http/http_parser.cpp`, and `HttpRequest::url_query` of
`http/request.cpp`.

A URL is read twice. `http_parser_execute` looks for its end, and refuses the request if the URL
is malformed. When the head is complete, `http_parser_parse_url` takes the URL apart, as that of a
`CONNECT` request whatever the method is; its result is not looked at, so that what it has found
before it gives up counts. The offsets and lengths that it notes have 16 bits.

## Conventions

* `HTTP_PARSER_STRICT` is not set, and the method of the request is not `CONNECT`.
* The head of a request is shorter than `HTTP_MAX_HEADER_SIZE`.
* Of `http_parser_parse_url` the model has the loop: `http_parse_host` and the checks behind it
  write to the host, the port and the user info only.

## Main definitions

* `executeUrlChar`, `requestUrl`: the URL that `http_parser_execute` reports.
* `parseUrlChar`, `parseUrl`, `urlQuery`: the query that the request holds.

## Main results

* `requestUrl_eq`: the URL that is reported begins with the one that was sent, and a blank comes
  next if there is more.
* `urlQuery_found`: **the query is what stands behind the question mark**, where offset and length
  fit into 16 bits.
* `urlQuery_not_found`: there is none where the loop is dead, or in the fragment, at the mark.
-/

namespace ArchNet.HttpParser

open Routing (Text)

/-! ### Characters -/

/-- `LOWER`. -/
def lower (c : UInt8) : UInt8 := c ||| 32

/-- `IS_ALPHA`. -/
def isAlpha (c : UInt8) : Bool := decide (97 ≤ lower c ∧ lower c ≤ 122)

/-- `IS_NUM`. -/
def isNum (c : UInt8) : Bool := decide (48 ≤ c ∧ c ≤ 57)

/-- `IS_ALPHANUM`. -/
def isAlphanum (c : UInt8) : Bool := isAlpha c || isNum c

/-- `IS_HEX`. -/
def isHex (c : UInt8) : Bool := isNum c || decide (97 ≤ lower c ∧ lower c ≤ 102)

/-- `IS_MARK`: `-`, `_`, `.`, `!`, `~`, `*`, a quote, and parentheses. -/
def isMark (c : UInt8) : Bool := [45, 95, 46, 33, 126, 42, 39, 40, 41].contains c

/-- `IS_USERINFO_CHAR`: besides, `%`, `;`, `:`, `&`, `=`, `+`, `$` and `,`. -/
def isUserinfoChar (c : UInt8) : Bool :=
  isAlphanum c || isMark c || [37, 59, 58, 38, 61, 43, 36, 44].contains c

/-- `IS_HOST_CHAR`: besides letters and digits, `.`, `-` and `_`. -/
def isHostChar (c : UInt8) : Bool := isAlphanum c || [46, 45, 95].contains c

/-- `IS_URL_CHAR`: the visible characters but for `#` and `?`, the tab and the form feed, and what
is not ASCII. -/
def isUrlChar (c : UInt8) : Bool :=
  c == 9 || c == 12 || (decide (33 ≤ c) && c != 35 && c != 63 && c != 127)

/-- A character that goes on with a query. -/
def isQueryChar (c : UInt8) : Bool := isUrlChar c || c == 63

/-! ### The URL of a request line -/

/-- The states of `http_parser.cpp` in which it reads a URL. -/
inductive UrlState
  | dead
  | spacesBeforeUrl
  | schema
  | schemaSlash
  | schemaSlashSlash
  | serverStart
  | server
  | serverWithAt
  | hostStart
  | host
  | hostIpv6
  | hostDone
  | port
  | path
  | queryStringStart
  | queryString
  | fragmentStart
  | fragment
  deriving DecidableEq, Repr

/-- `http_parser_execute` in the state `s_req_host_done`. -/
def hostDoneChar (c : UInt8) : UrlState :=
  if c = 58 then .port else if c = 47 then .path else if c = 63 then .queryStringStart else .dead

/-- `http_parser_execute` at a character of the URL. In the two states behind a schema any
character passes for a slash, since `STRICT_CHECK` is empty. -/
def executeUrlChar : UrlState → UInt8 → UrlState
  | .spacesBeforeUrl, c =>
      if c = 47 ∨ c = 42 then .path else if isAlpha c then .schema else .dead
  | .schema, c => if isAlpha c then .schema else if c = 58 then .schemaSlash else .dead
  | .schemaSlash, _ => .schemaSlashSlash
  | .schemaSlashSlash, _ => .hostStart
  | .hostStart, c => if c = 91 then .hostIpv6 else if isAlphanum c then .host else .dead
  | .host, c => if isHostChar c then .host else hostDoneChar c
  | .hostIpv6, c => if isHex c ∨ c = 58 then .hostIpv6 else if c = 93 then .hostDone else .dead
  | .hostDone, c => hostDoneChar c
  | .port, c =>
      if isNum c then .port else if c = 47 then .path else if c = 63 then .queryStringStart
      else .dead
  | .path, c =>
      if isUrlChar c then .path else if c = 63 then .queryStringStart
      else if c = 35 then .fragmentStart else .dead
  | .queryStringStart, c =>
      if isUrlChar c then .queryString else if c = 63 then .queryStringStart
      else if c = 35 then .fragmentStart else .dead
  | .queryString, c =>
      if isQueryChar c then .queryString else if c = 35 then .fragmentStart else .dead
  | .fragmentStart, c =>
      if isQueryChar c then .fragment else if c = 35 then .fragmentStart else .dead
  | .fragment, c => if isQueryChar c ∨ c = 35 then .fragment else .dead
  | .dead, _ | .serverStart, _ | .server, _ | .serverWithAt, _ => .dead

/-- Whether a character ends the URL: a blank, and where the version may be missing a line break
too. -/
def endsUrl : UrlState → UInt8 → Bool
  | .host, c | .hostDone, c | .port, c => c == 32
  | .path, c | .queryStringStart, c | .queryString, c | .fragmentStart, c | .fragment, c =>
      c == 32 || c == 13 || c == 10
  | _, _ => false

/-- `http_parser_execute` from the end of the method on, with the URL so far: the URL that it
reports, or `none` if it refuses the request. -/
def executeUrl : UrlState → Text → Text → Option Text
  | _, _, [] => none
  | s, url, c :: rest =>
      if s = .spacesBeforeUrl ∧ c = 32 then executeUrl s url rest
      else if endsUrl s c then some url
      else if executeUrlChar s c = .dead then none
      else executeUrl (executeUrlChar s c) (url ++ [c]) rest

/-- What follows the URL in a request line. -/
def version : Text := Bytes.ascii " HTTP/1.1\r\n"

/-- The URL that `OnUrl` is given for the target of a request; `none` if the request is
refused. -/
def requestUrl (target : Text) : Option Text := executeUrl .spacesBeforeUrl [] (target ++ version)

/-! ### The parts of a URL -/

/-- `parse_url_char`. -/
def parseUrlChar (s : UrlState) (c : UInt8) : UrlState :=
  if c = 32 ∨ c = 13 ∨ c = 10 then .dead
  else match s with
  | .spacesBeforeUrl =>
      if c = 47 ∨ c = 42 then .path else if isAlpha c then .schema else .dead
  | .schema => if isAlpha c then .schema else if c = 58 then .schemaSlash else .dead
  | .schemaSlash => if c = 47 then .schemaSlashSlash else .dead
  | .schemaSlashSlash => if c = 47 then .serverStart else .dead
  | .serverStart | .server | .serverWithAt =>
      if s = .serverWithAt ∧ c = 64 then .dead
      else if c = 47 then .path
      else if c = 63 then .queryStringStart
      else if c = 64 then .serverWithAt
      else if isUserinfoChar c ∨ c = 91 ∨ c = 93 then .server else .dead
  | .path =>
      if isUrlChar c then .path else if c = 63 then .queryStringStart
      else if c = 35 then .fragmentStart else .dead
  | .queryStringStart | .queryString =>
      if isQueryChar c then .queryString else if c = 35 then .fragmentStart else .dead
  | .fragmentStart =>
      if isQueryChar c then .fragment else if c = 35 then .fragmentStart else .dead
  | .fragment => if isQueryChar c ∨ c = 35 then .fragment else .dead
  | _ => .dead

/-- The parts of a URL that the loop of `http_parser_parse_url` finds. -/
inductive UrlField
  | schema
  | host
  | path
  | query
  | fragment
  deriving DecidableEq, Repr

/-- The part that a state belongs to; the others skip a delimiter. -/
def UrlState.field : UrlState → Option UrlField
  | .schema => some .schema
  | .server | .serverWithAt => some .host
  | .path => some .path
  | .queryString => some .query
  | .fragment => some .fragment
  | _ => none

/-- The variables `s` and `old_uf` of `http_parser_parse_url`, and what it notes: the offset and the
length of each part in `field_set`. -/
structure UrlParse where
  s : UrlState
  oldUf : Option UrlField
  fieldData : UrlField → Option (UInt16 × UInt16)

namespace UrlParse

/-- The body of the loop, at the offset `p`. In the state `dead` the call has returned. -/
def next (u : UrlParse) (p : ℕ) (c : UInt8) : UrlParse :=
  let s := parseUrlChar u.s c
  match s.field with
  | none => { u with s }
  | some uf =>
      if u.oldUf = some uf then
        let data := (u.fieldData uf).map fun (off, len) => (off, len + 1)
        { u with s, fieldData := Function.update u.fieldData uf data }
      else ⟨s, some uf, Function.update u.fieldData uf (some (UInt16.ofNat p, 1))⟩

/-- The loop, from the offset `p` on. -/
def run (u : UrlParse) (p : ℕ) : Text → UrlParse
  | [] => u
  | c :: rest => (u.next p c).run (p + 1) rest

/-- Before the loop. -/
def init (isConnect : Bool) : UrlParse :=
  ⟨if isConnect then .serverStart else .spacesBeforeUrl, none, fun _ => none⟩

end UrlParse

/-- `http_parser_parse_url`. -/
def parseUrl (url : Text) (isConnect : Bool) : UrlField → Option (UInt16 × UInt16) :=
  ((UrlParse.init isConnect).run 0 url).fieldData

/-- `url_query`, of a request whose `u` is what `OnHeaderComplete` has parsed. -/
def urlQuery (url : Text) : Text :=
  match parseUrl url true .query with
  | none => []
  | some (off, len) => (url.drop off.toNat).take len.toNat

/-! ### The URL that is reported -/

section Request

variable {s : UrlState} {url target rest : Text} {c : UInt8}

/-- A blank or a line break. -/
def IsBreak (c : UInt8) : Prop := c = 32 ∨ c = 13 ∨ c = 10

/-- Nothing but a break ends a URL. -/
theorem isBreak_of_endsUrl (h : endsUrl s c = true) : IsBreak c := by
  rw [IsBreak]
  cases s <;> simp_all [endsUrl, or_assoc]

/-- In the state `dead` the request is refused. -/
@[simp] theorem executeUrl_dead (url rest : Text) : executeUrl .dead url rest = none := by
  cases rest with
  | nil => rfl
  | cons c rest => simp [executeUrl, endsUrl, executeUrlChar]

/-- Once the blanks in front are over, they do not come back. -/
theorem executeUrlChar_ne (s : UrlState) (c : UInt8) :
    executeUrlChar s c ≠ .spacesBeforeUrl := by
  cases s <;> simp only [executeUrlChar, hostDoneChar] <;> (try split_ifs) <;> simp

/-- **A text without breaks** is read to its end. -/
theorem executeUrl_append (hbreak : ∀ c ∈ target, ¬ IsBreak c) :
    executeUrl s url (target ++ rest) =
      executeUrl (target.foldl executeUrlChar s) (url ++ target) rest := by
  induction target generalizing s url with
  | nil => rw [List.nil_append, List.append_nil, List.foldl_nil]
  | cons c target ih =>
      rw [List.forall_mem_cons] at hbreak
      have hends : ¬ endsUrl s c = true := fun hends => hbreak.1 (isBreak_of_endsUrl hends)
      have hblank : ¬ (s = .spacesBeforeUrl ∧ c = 32) := fun h => hbreak.1 (.inl h.2)
      rw [List.cons_append, executeUrl, if_neg hblank, if_neg hends, List.foldl_cons]
      split_ifs with hdead
      · -- once it is dead, no character brings the parser back
        have hstay : ∀ l : Text, l.foldl executeUrlChar .dead = .dead := by
          intro l
          induction l with
          | nil => rfl
          | cons c l ih => exact ih
        rw [hdead, hstay, executeUrl_dead]
      · rw [ih hbreak.2, List.append_assoc, List.singleton_append]

/-- The URL only grows. -/
theorem prefix_of_executeUrl (h : executeUrl s url rest = some target) : url <+: target := by
  induction rest generalizing s url with
  | nil => cases h
  | cons c rest ih =>
      rw [executeUrl] at h
      split_ifs at h
      · exact ih h
      · rw [Option.some.inj h]
      · exact (List.prefix_append url [c]).trans (ih h)

/-- **The URL that is reported** begins with the target, and if there is more a blank comes
next. -/
theorem requestUrl_eq (hbreak : ∀ c ∈ target, ¬ IsBreak c) (h : requestUrl target = some url) :
    ∃ tail, url = target ++ tail ∧ ∀ c ∈ tail.head?, c = 32 := by
  have hversion : version = 32 :: Bytes.ascii "HTTP/1.1\r\n" := by decide
  rw [requestUrl, executeUrl_append hbreak, List.nil_append, hversion, executeUrl] at h
  split_ifs at h with hblank
  · -- only the empty target leaves the parser before the URL
    rcases List.eq_nil_or_concat target with rfl | ⟨front, c, rfl⟩
    · have hnone : executeUrl .spacesBeforeUrl [] (Bytes.ascii "HTTP/1.1\r\n") = none := by decide
      exact absurd (hnone.symm.trans h) (by simp)
    · rw [List.concat_eq_append, List.foldl_append] at hblank
      exact absurd hblank.1 (executeUrlChar_ne _ _)
  · exact ⟨[], by rw [List.append_nil, Option.some.inj h], by simp⟩
  · obtain ⟨rest, rfl⟩ := prefix_of_executeUrl h
    exact ⟨32 :: rest, by rw [List.append_assoc, List.singleton_append], by simp⟩

end Request

/-! ### The query that is found -/

section Query

variable {u : UrlParse} {p : ℕ} {l front query tail : Text} {c : UInt8}

theorem parseUrlChar_dead (c : UInt8) : parseUrlChar .dead c = .dead := by
  simp [parseUrlChar]

/-- A break is no character of a query. -/
theorem not_isBreak (h : isQueryChar c = true) : ¬ IsBreak c := by
  rintro (rfl | rfl | rfl) <;> exact absurd h (by decide)

theorem parseUrlChar_break (s : UrlState) (hc : IsBreak c) : parseUrlChar s c = .dead :=
  if_pos hc

namespace UrlParse

/-- The state goes its own way. -/
@[simp] theorem next_s (u : UrlParse) (p : ℕ) (c : UInt8) :
    (u.next p c).s = parseUrlChar u.s c := by
  rw [next]
  cases (parseUrlChar u.s c).field with
  | none => rfl
  | some uf =>
      dsimp only
      split_ifs <;> rfl

theorem run_s (u : UrlParse) (p : ℕ) (l : Text) : (u.run p l).s = l.foldl parseUrlChar u.s := by
  induction l generalizing u p with
  | nil => rfl
  | cons c l ih => rw [run, ih, next_s, List.foldl_cons]

theorem run_append (u : UrlParse) (p : ℕ) (l rest : Text) :
    u.run p (l ++ rest) = (u.run p l).run (p + l.length) rest := by
  induction l generalizing u p with
  | nil => rfl
  | cons c l ih =>
      rw [List.cons_append, run, run, ih, List.length_cons, Nat.add_comm l.length, Nat.add_assoc]

/-- When the call has returned, nothing is noted any more. -/
theorem run_dead (h : u.s = .dead) : u.run p l = u := by
  induction l generalizing p with
  | nil => rfl
  | cons c l ih =>
      have hnext : u.next p c = u := by
        rw [next, h, parseUrlChar_dead]
        exact congrArg (UrlParse.mk · u.oldUf u.fieldData) h.symm
      rw [run, hnext, ih]

/-- A blank is the end, if anything is left. -/
theorem run_tail (htail : ∀ c ∈ tail.head?, c = 32) :
    (u.run p tail).fieldData = u.fieldData := by
  cases tail with
  | nil => rfl
  | cons c tail =>
      obtain rfl : c = 32 := htail c rfl
      have hdead : parseUrlChar u.s 32 = .dead := parseUrlChar_break _ (.inl rfl)
      rw [run, run_dead (by rw [next_s, hdead]), next, hdead]
      rfl

/-- **No query yet**: neither noted nor being read. -/
def NoQuery (u : UrlParse) : Prop := u.fieldData .query = none ∧ u.oldUf ≠ some .query

/-- A character that does not lead into the query leaves it unnoted. -/
theorem NoQuery.next (h : u.NoQuery) (hs : parseUrlChar u.s c ≠ .queryString) :
    (u.next p c).NoQuery := by
  have hfield : (parseUrlChar u.s c).field ≠ some .query := by
    cases hstate : parseUrlChar u.s c <;> simp_all [UrlState.field]
  rw [UrlParse.next]
  cases huf : (parseUrlChar u.s c).field with
  | none => exact h
  | some uf =>
      have hne : uf ≠ .query := by
        rintro rfl
        exact hfield huf
      dsimp only
      split_ifs
      · exact ⟨(Function.update_of_ne hne.symm _ _).trans h.1, h.2⟩
      · exact ⟨(Function.update_of_ne hne.symm _ _).trans h.1, by simpa using hne⟩

end UrlParse

/-- The states before a question mark. -/
def UrlState.InFront : UrlState → Prop
  | .serverStart | .server | .serverWithAt | .path => True
  | _ => False

/-- The states that no query comes behind. -/
def UrlState.Behind : UrlState → Prop
  | .dead | .fragmentStart | .fragment => True
  | _ => False

/-- A question mark in front begins the query. -/
theorem parseUrlChar_mark {s : UrlState} (h : s.InFront) :
    parseUrlChar s 63 = .queryStringStart := by
  cases s <;> first | rfl | exact h.elim

/-- Before the question mark the parser stays in front, or it gets behind. -/
theorem parseUrlChar_inFront {s : UrlState} (h : s.InFront) (hc : c ≠ 63) :
    (parseUrlChar s c).InFront ∨ (parseUrlChar s c).Behind := by
  cases s <;> first
    | exact h.elim
    | simp only [parseUrlChar, hc, if_false]
      split_ifs <;> simp [UrlState.InFront, UrlState.Behind]

/-- What is behind stays behind. -/
theorem parseUrlChar_behind {s : UrlState} (h : s.Behind) : (parseUrlChar s c).Behind := by
  cases s <;> first
    | exact h.elim
    | simp only [parseUrlChar]
      split_ifs <;> simp [UrlState.Behind]

namespace UrlParse

/-- **Behind**, no query is found. -/
theorem NoQuery.run_behind (h : u.NoQuery) (hs : u.s.Behind) :
    (u.run p l).NoQuery ∧ (u.run p l).s.Behind := by
  induction l generalizing u p with
  | nil => exact ⟨h, hs⟩
  | cons c l ih =>
      have hbehind := parseUrlChar_behind (c := c) hs
      refine ih (h.next fun heq => ?_) (by rwa [next_s])
      rw [heq] at hbehind
      exact hbehind

/-- **In front** of the question mark, no query is found either. -/
theorem NoQuery.run_inFront (h : u.NoQuery) (hs : u.s.InFront) (hmark : (63 : UInt8) ∉ l) :
    (u.run p l).NoQuery ∧ ((u.run p l).s.InFront ∨ (u.run p l).s.Behind) := by
  induction l generalizing u p with
  | nil => exact ⟨h, .inl hs⟩
  | cons c l ih =>
      rw [List.mem_cons, not_or] at hmark
      have hnext := parseUrlChar_inFront hs fun heq => hmark.1 heq.symm
      have hnone : (u.next p c).NoQuery := by
        refine h.next fun heq => ?_
        rw [heq] at hnext
        exact hnext.elim id id
      rcases hnext with hfront | hbehind
      · exact ih hnone (by rwa [next_s]) hmark.2
      · obtain ⟨hrest, hend⟩ := hnone.run_behind (l := l) (p := p + 1) (by rwa [next_s])
        exact ⟨hrest, .inr hend⟩

/-- A character of a query makes it longer. -/
theorem next_query (hs : u.s = .queryString) (huf : u.oldUf = some .query) {off len : UInt16}
    (hdata : u.fieldData .query = some (off, len)) (hc : isQueryChar c = true) :
    (u.next p c).s = .queryString ∧ (u.next p c).oldUf = some .query ∧
      (u.next p c).fieldData .query = some (off, len + 1) := by
  have hstate : parseUrlChar u.s c = .queryString := by
    rw [hs]
    exact (if_neg (not_isBreak hc)).trans (if_pos hc)
  simp [next, hstate, UrlState.field, huf, hdata]

/-- **The rest of a query** is counted. -/
theorem run_query (hs : u.s = .queryString) (huf : u.oldUf = some .query) {off len : UInt16}
    (hdata : u.fieldData .query = some (off, len))
    (hl : ∀ c ∈ l, isQueryChar c = true) :
    (u.run p l).fieldData .query = some (off, len + UInt16.ofNat l.length) := by
  induction l generalizing u p len with
  | nil =>
      rw [run, hdata]
      simp
  | cons c l ih =>
      rw [List.forall_mem_cons] at hl
      obtain ⟨hs', huf', hdata'⟩ := next_query (p := p) hs huf hdata hl.1
      have hlen : len + 1 + UInt16.ofNat l.length = len + UInt16.ofNat (l.length + 1) := by
        rw [UInt16.ofNat_add, UInt16.add_assoc, UInt16.add_comm 1]
        rfl
      rw [run, ih hs' huf' hdata' hl.2, hlen, List.length_cons]

end UrlParse

/-- The **parser is at a query** behind the text: the last character has been the question
mark. -/
def AtQuery (text : Text) : Prop := text.foldl parseUrlChar .serverStart = .queryStringStart

instance (text : Text) : Decidable (AtQuery text) :=
  inferInstanceAs (Decidable (_ = UrlState.queryStringStart))

namespace UrlParse

/-- The loop before the question mark. -/
theorem run_front (hfront : (63 : UInt8) ∉ front) :
    ((init true).run 0 front).NoQuery ∧
      (((init true).run 0 front).s.InFront ∨ ((init true).run 0 front).s.Behind) :=
  NoQuery.run_inFront ⟨rfl, by simp [init]⟩ trivial hfront

/-- The state that the question mark leads to. -/
theorem run_mark (front : Text) : parseUrlChar ((init true).run 0 front).s 63 =
    (front ++ [63]).foldl parseUrlChar .serverStart := by
  rw [run_s, List.foldl_append]
  rfl

/-- **A query is noted** with its offset and its length. -/
theorem NoQuery.run_query (h : u.NoQuery) (hs : u.s = .queryStringStart)
    (hl : ∀ c ∈ l, isQueryChar c = true) :
    (u.run p l).fieldData .query =
      if l = [] then none else some (UInt16.ofNat p, UInt16.ofNat l.length) := by
  cases l with
  | nil => exact h.1
  | cons c l =>
      rw [List.forall_mem_cons] at hl
      have hstate : parseUrlChar u.s c = .queryString := by
        rw [hs]
        exact (if_neg (not_isBreak hl.1)).trans (if_pos hl.1)
      have hnext : u.next p c = ⟨.queryString, some .query,
          Function.update u.fieldData .query (some (UInt16.ofNat p, 1))⟩ := by
        rw [UrlParse.next, hstate]
        exact if_neg h.2
      have hdata : (u.next p c).fieldData .query = some (UInt16.ofNat p, 1) := by
        simp [hnext]
      rw [run, UrlParse.run_query (by rw [hnext]) (by rw [hnext]) hdata hl.2,
        if_neg (List.cons_ne_nil c l), List.length_cons, Nat.add_comm, UInt16.ofNat_add]
      rfl

end UrlParse

/-- Nothing but a question mark leads to a query. -/
theorem not_atQuery_of_not_mem (hfront : (63 : UInt8) ∉ front) : ¬ AtQuery front := by
  intro h
  have hstate := (UrlParse.run_front hfront).2
  have hquery : ((UrlParse.init true).run 0 front).s = .queryStringStart := by
    rw [UrlParse.run_s]
    exact h
  rw [hquery] at hstate
  exact hstate.elim id id

/-- **The query that is found** is what stands behind the question mark, if the parser is at a
query there, and if offset and length fit into 16 bits. -/
theorem urlQuery_found (hfront : (63 : UInt8) ∉ front) (hmark : AtQuery (front ++ [63]))
    (hquery : ∀ c ∈ query, isQueryChar c = true) (htail : ∀ c ∈ tail.head?, c = 32)
    (hfits : front.length + 1 + query.length < 2 ^ 16) :
    urlQuery (front ++ 63 :: (query ++ tail)) = query := by
  have hnone := (UrlParse.run_front hfront).1
  have hafter : parseUrlChar ((UrlParse.init true).run 0 front).s 63 = .queryStringStart :=
    (UrlParse.run_mark front).trans hmark
  have hdata : parseUrl (front ++ 63 :: (query ++ tail)) true .query =
      if query = [] then none
      else some (UInt16.ofNat (front.length + 1), UInt16.ofNat query.length) := by
    rw [parseUrl, UrlParse.run_append, UrlParse.run, UrlParse.run_append,
      UrlParse.run_tail htail, Nat.zero_add]
    refine (hnone.next ?_).run_query (by rw [UrlParse.next_s, hafter]) hquery
    rw [hafter]
    simp
  rw [urlQuery, hdata]
  split_ifs with hnil
  · exact hnil.symm
  · have hoff : (UInt16.ofNat (front.length + 1)).toNat = front.length + 1 :=
      UInt16.toNat_ofNat_of_lt' (by change _ < 2 ^ 16; omega)
    have hlen : (UInt16.ofNat query.length).toNat = query.length :=
      UInt16.toNat_ofNat_of_lt' (by change _ < 2 ^ 16; omega)
    dsimp only
    rw [hoff, hlen, List.drop_length_add_append, List.drop_succ_cons, List.drop_zero,
      List.take_left]

/-- **No query is found** behind a question mark at which the parser is not at a query. -/
theorem urlQuery_not_found (hfront : (63 : UInt8) ∉ front) (hmark : ¬ AtQuery (front ++ [63])) :
    urlQuery (front ++ 63 :: tail) = [] := by
  obtain ⟨hnone, hstate⟩ := UrlParse.run_front hfront
  rcases hstate with hstate | hstate
  · exact absurd ((UrlParse.run_mark front).symm.trans (parseUrlChar_mark hstate)) hmark
  · have hquery := (hnone.run_behind (p := 0 + front.length) (l := 63 :: tail) hstate).1.1
    rw [urlQuery, parseUrl, UrlParse.run_append, hquery]

/-- **Without a question mark** no query is found. -/
theorem urlQuery_unmarked (hfront : (63 : UInt8) ∉ front) (htail : ∀ c ∈ tail.head?, c = 32) :
    urlQuery (front ++ tail) = [] := by
  rw [urlQuery, parseUrl, UrlParse.run_append, UrlParse.run_tail htail,
    (UrlParse.run_front hfront).1.1]

end Query

/-! ### Paths that begin with a slash -/

section Path

variable {l query : Text}

/-- What stays behind leads to no query. -/
theorem foldl_behind {s : UrlState} (h : s.Behind) : (l.foldl parseUrlChar s).Behind := by
  induction l generalizing s with
  | nil => exact h
  | cons c l ih => exact ih (parseUrlChar_behind h)

/-- From inside a path, the question mark is reached if nothing but path comes before. -/
theorem path_mark_iff (hmark : (63 : UInt8) ∉ l) :
    (l ++ [63]).foldl parseUrlChar .path = .queryStringStart ↔ ∀ c ∈ l, isUrlChar c = true := by
  induction l with
  | nil => exact iff_of_true (by decide) (by simp)
  | cons c l ih =>
      rw [List.mem_cons, not_or] at hmark
      rw [List.cons_append, List.foldl_cons, List.forall_mem_cons]
      by_cases hc : isUrlChar c = true
      · have hbreak : ¬ IsBreak c := not_isBreak (by rw [isQueryChar, hc, Bool.true_or])
        have hpath : parseUrlChar .path c = .path := (if_neg hbreak).trans (if_pos hc)
        rw [hpath, ih hmark.2]
        simp [hc]
      · refine iff_of_false (fun heq => ?_) fun h => hc h.1
        -- `#`, or a character that is refused
        have hbehind : (parseUrlChar .path c).Behind := by
          have hne : c ≠ 63 := fun h => hmark.1 h.symm
          simp only [parseUrlChar, hc, hne, if_false]
          split_ifs <;> trivial
        have hend := foldl_behind (l := l ++ [63]) hbehind
        rw [heq] at hend
        exact hend

/-- **A path that begins with a slash** leads to the query if its characters are those of a
path. -/
theorem atQuery_slash_iff (hmark : (63 : UInt8) ∉ l) :
    AtQuery (47 :: (l ++ [63])) ↔ ∀ c ∈ l, isUrlChar c = true := path_mark_iff hmark

/-- A query does not end before its last character. -/
theorem foldl_query {s : UrlState} (hs : s = .queryStringStart ∨ s = .queryString)
    (hquery : ∀ c ∈ query, isQueryChar c = true) :
    query.foldl executeUrlChar s = .queryStringStart ∨
      query.foldl executeUrlChar s = .queryString := by
  induction query generalizing s with
  | nil => exact hs
  | cons c query ih =>
      rw [List.forall_mem_cons] at hquery
      refine ih ?_ hquery.2
      rcases hs with rfl | rfl
      · have hc : isUrlChar c = true ∨ c = 63 := by simpa [isQueryChar] using hquery.1
        by_cases hurl : isUrlChar c = true
        · exact .inr (if_pos hurl)
        · exact .inl ((if_neg hurl).trans (if_pos (hc.resolve_left hurl)))
      · exact .inr (if_pos hquery.1)

/-- **A path that begins with a slash** is accepted with any query. -/
theorem requestUrl_slash (hl : ∀ c ∈ l, isUrlChar c = true)
    (hquery : ∀ c ∈ query, isQueryChar c = true) :
    requestUrl (47 :: (l ++ 63 :: query)) = some (47 :: (l ++ 63 :: query)) := by
  have hpath : l.foldl executeUrlChar .path = .path := by
    clear hquery
    induction l with
    | nil => rfl
    | cons c l ih =>
        rw [List.forall_mem_cons] at hl
        rw [List.foldl_cons, executeUrlChar, if_pos hl.1, ih hl.2]
  have hbreak : ∀ c ∈ 47 :: (l ++ 63 :: query), ¬ IsBreak c := by
    intro c hc
    refine not_isBreak ?_
    rw [List.mem_cons, List.mem_append, List.mem_cons] at hc
    rcases hc with rfl | hc | rfl | hc
    · decide
    · rw [isQueryChar, hl c hc, Bool.true_or]
    · decide
    · exact hquery c hc
  have hstate : (47 :: (l ++ 63 :: query)).foldl executeUrlChar .spacesBeforeUrl =
      query.foldl executeUrlChar .queryStringStart := by
    have hslash : executeUrlChar .spacesBeforeUrl 47 = .path := by decide
    have hmark : executeUrlChar .path 63 = .queryStringStart := by decide
    rw [List.foldl_cons, hslash, List.foldl_append, hpath, List.foldl_cons, hmark]
  have hversion : version = 32 :: Bytes.ascii "HTTP/1.1\r\n" := by decide
  rw [requestUrl, executeUrl_append hbreak, List.nil_append, hstate, hversion, executeUrl]
  rcases foldl_query (.inl rfl) hquery with h | h <;> simp [h, endsUrl]

end Path

end ArchNet.HttpParser

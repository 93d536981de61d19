import ArchNet.HttpUtils
import ArchNet.UrlParser

/-!
# Query Parameters from Client to Server

`encode_query_param`, `params_to_query_str` and `append_query_params` of `http/http_utils.h`, the
`encode_url` that the whole path then goes through, `HttpRequest::parse_query` and `get_query` of
`http/request.cpp`, and `split` of `utils/slice.h`. Between the two stands the parser of
`ArchNet.UrlParser`.

The client encodes a value twice, and the server decodes nothing: a value arrives as it was sent
if neither encoding touches it.

## Conventions

* The indices of `split` are an `int` in the source; texts of `2 ^ 31` bytes are not considered.

## Main definitions

* `encodeQueryParam`, `paramsToQueryStr`, `appendQueryParams`, `sentUrl`: the client.
* `split`, `parseQuery`, `getQuery`, `serverQuery`: the server.
* `Taken`, `Fits`: the URL is accepted, and it is shorter than `2 ^ 16`.
* `Arrives`: the condition on a path and a parameter.

## Main results

* `urlQuery_taken`: the query that the server finds in an accepted URL.
* `parseQuery_queryLoop`: the server's map holds the doubly encoded texts of the parameters whose
  values are not empty.
* `plain_of_value`: no value is mended by another one.
* `atQuery_slash_path_iff`, `slash_path_taken`: a path that begins with a slash is accepted and its
  query found, unless it has a control character or a fragment.
* `query_arrives_iff`: **every value of an accepted and short URL arrives exactly if each is empty,
  or neither encoding touches its key and value, the key is not empty and the parser finds the
  query behind the path**.
-/

open Bytes

namespace ArchNet.HttpQuery

open Routing (Text cstr cstr_eq_self)
open HttpClient
open HttpParser (AtQuery IsBreak isUrlChar isQueryChar requestUrl urlQuery)

/-! ### The client -/

/-- `isalnum`. -/
def isAlnum (c : UInt8) : Bool :=
  decide (48 ≤ c ∧ c ≤ 57) || decide (65 ≤ c ∧ c ≤ 90) || decide (97 ≤ c ∧ c ≤ 122)

/-- What `encode_query_param` lets through: letters, digits and `-`, `_`, `.`, `!`, `~`, `*`, a
quote, and parentheses. -/
def isUnreserved (c : UInt8) : Bool :=
  isAlnum c || [45, 95, 46, 33, 126, 42, 39, 40, 41].contains c

/-- `encode_query_param`. -/
def encodeQueryParam (value : Text) : Text :=
  value.flatMap fun c => if isUnreserved c then [c] else percent c

/-- The order of `std::string`. -/
def byteValues (s : Text) : List ℕ := s.map UInt8.toNat

/-- `Params`. -/
abbrev Params := Multimap Text Text byteValues

/-- A parameter in a query. -/
def paramText (p : Text × Text) : Text := p.1 ++ 61 :: encodeQueryParam p.2

/-- The loop of `params_to_query_str`; the first parameter has no `&` in front. -/
def queryLoop : List (Text × Text) → Text
  | [] => []
  | [p] => paramText p
  | p :: q :: params => paramText p ++ 38 :: queryLoop (q :: params)

/-- `params_to_query_str`. -/
def paramsToQueryStr (params : Params) : Text := queryLoop params.items

/-- `std::regex_match(path, "[^?]+\\?.*")`: there is a question mark, not at the beginning, and no
line break behind it. -/
def hasQuery (path : Text) : Bool :=
  match path.dropWhile (· != 63) with
  | [] => false
  | _ :: rest => path.head? != some 63 && rest.all fun c => c != 10 && c != 13

/-- `append_query_params`. -/
def appendQueryParams (path : Text) (params : Params) : Text :=
  path ++ (if hasQuery path then 38 else 63) :: paramsToQueryStr params

/-- The target of the request. -/
def sentUrl (path : Text) (params : Params) : Text := encodeUrl (appendQueryParams path params)

/-! ### The server -/

/-- The loop of `split`, with the piece between `start` and the index. -/
def splitLoop (sep : UInt8) : Text → Text → List Text
  | [], piece => if piece = [] then [] else [piece]
  | c :: s, piece =>
      if c = sep then piece :: splitLoop sep s [] else splitLoop sep s (piece ++ [c])

/-- `split`: an empty piece at the end is left out. -/
def split (sep : UInt8) (line : Text) : List Text := splitLoop sep line []

/-- The member `query` of `HttpRequest`. -/
abbrev Query := Text → Option Text

/-- The body of the loop of `parse_query`. -/
def parsePair (query : Query) (pair : Text) : Query :=
  match split 61 pair with
  | [key, value] => Function.update query key (some value)
  | _ => query

/-- `parse_query`, for a request whose `query` is empty. -/
def parseQuery (str : Text) : Query := (split 38 str).foldl parsePair fun _ => none

/-- `get_query`. -/
def getQuery (query : Query) (key : Text) : Text :=
  if key = [] then [] else (query key).getD []

/-- The map of the request that the server makes of a target; `none` if it refuses the request. -/
def serverQuery (target : Text) : Option Query :=
  (requestUrl target).map fun url => parseQuery (urlQuery url)

/-- The server's view of a parameter that the client sends. -/
def received (path : Text) (params : Params) (key : Text) : Option Text :=
  (serverQuery (sentUrl path params)).map fun query => getQuery query key

/-! ### Conditions -/

/-- A character that may stand in a query: visible, and not the start of a fragment. -/
def isUrlSafe (c : UInt8) : Bool := decide (33 ≤ c ∧ c ≤ 126) && c != 35

/-- Keys of such characters, without the separators. -/
def KeysSafe (params : List (Text × Text)) : Prop :=
  ∀ p ∈ params, ∀ c ∈ p.1, isUrlSafe c = true ∧ c ≠ 38 ∧ c ≠ 61

instance (params : List (Text × Text)) : Decidable (KeysSafe params) :=
  decidable_of_iff (params.all fun p => p.1.all fun c => isUrlSafe c && c != 38 && c != 61)
    (by simp [KeysSafe, and_assoc])

/-- A text that `encode_url` leaves alone. -/
def PlainKey (s : Text) : Prop := ∀ c ∈ s, encodeUrlByte c = [c]

instance (s : Text) : Decidable (PlainKey s) :=
  decidable_of_iff (s.all fun c => encodeUrlByte c == [c]) (by simp [PlainKey])

/-- A text that both encodings leave alone. -/
def PlainValue (s : Text) : Prop := ∀ c ∈ s, isUnreserved c = true ∧ c ≠ 39

instance (s : Text) : Decidable (PlainValue s) :=
  decidable_of_iff (s.all fun c => isUnreserved c && c != 39) (by simp [PlainValue])

/-- **The request is taken**: the parser accepts the URL. -/
def Taken (path : Text) (params : Params) : Prop :=
  (requestUrl (sentUrl path params)).isSome = true

/-- **The URL is short**: its offsets and lengths have 16 bits. -/
def Fits (path : Text) (params : Params) : Prop := (sentUrl path params).length < 2 ^ 16

/-- A character of a path: no control character, unless it is encoded or white space that the
parser lets pass, no `#` and no `?`. -/
def isPathChar (c : UInt8) : Bool :=
  c == 9 || c == 10 || c == 12 || c == 13 ||
    (decide (32 ≤ c) && c != 35 && c != 63 && c != 127)

/-- **A parameter arrives**: its value is empty, or path, key and value are as the two encodings
and the server need them. -/
def Arrives (path : Text) (p : Text × Text) : Prop :=
  p.2 = [] ∨
    AtQuery (encodeUrl (path ++ [63])) ∧ p.1 ≠ [] ∧ PlainKey p.1 ∧ PlainValue p.2

/-! ### The encodings -/

section Encoding

variable {c b : UInt8} {s : Text} {p : Text × Text}

/-- Both encodings of a byte of a value. -/
def encodeBoth (c : UInt8) : Text := if isUnreserved c && c != 39 then [c] else percent c

/-- What `percent` writes. -/
theorem mem_percent (hb : b ∈ percent c) : b ∈ 37 :: (List.range 16).map upperHex := by
  have hdigit : ∀ n < 16, upperHex n ∈ 37 :: (List.range 16).map upperHex := fun n hn =>
    List.mem_cons_of_mem 37 (List.mem_map_of_mem (List.mem_range.mpr hn))
  have hc := c.toNat_lt
  rw [percent, List.mem_cons, List.mem_cons, List.mem_singleton] at hb
  rcases hb with rfl | rfl | rfl
  · exact List.mem_cons_self
  · exact hdigit _ (by omega)
  · exact hdigit _ (by omega)

/-- Neither encoding brings in a separator, a question mark, a fragment or a NUL. -/
theorem not_mem_percent (c b : UInt8) (hb : b ∈ percent c) :
    b ≠ 0 ∧ b ≠ 35 ∧ b ≠ 38 ∧ b ≠ 61 ∧ b ≠ 63 := by
  have hall : ∀ b ∈ 37 :: (List.range 16).map upperHex,
      b ≠ 0 ∧ b ≠ 35 ∧ b ≠ 38 ∧ b ≠ 61 ∧ b ≠ 63 := by decide +kernel
  exact hall b (mem_percent hb)

/-- A character is left as it is or written in hexadecimal. -/
theorem encodeUrlByte_cases (c : UInt8) : encodeUrlByte c = [c] ∨ encodeUrlByte c = percent c := by
  rw [encodeUrlByte]
  split_ifs
  · exact .inr rfl
  · exact .inl rfl

/-- After both encodings a character is as it was or written in hexadecimal. -/
theorem encodeBoth_cases (c : UInt8) : encodeBoth c = [c] ∨ encodeBoth c = percent c := by
  rw [encodeBoth]
  split_ifs
  · exact .inl rfl
  · exact .inr rfl

/-- A value as it is sent. -/
def encodeValue (value : Text) : Text := value.flatMap encodeBoth

/-- A key as it is sent. -/
def encodeKey (key : Text) : Text := key.flatMap encodeUrlByte

theorem flatMap_eq_self {f : UInt8 → Text} (h : ∀ c ∈ s, f c = [c]) : s.flatMap f = s := by
  induction s with
  | nil => rfl
  | cons c s ih =>
      rw [List.forall_mem_cons] at h
      rw [List.flatMap_cons, h.1, ih h.2]
      rfl

/-- Unreserved characters are ASCII. -/
theorem lt_of_isUnreserved (h : isUnreserved c = true) : c < 128 := by
  simp only [isUnreserved, isAlnum, Bool.or_eq_true, decide_eq_true_eq, List.contains_iff_mem,
    List.mem_cons, List.not_mem_nil, or_false] at h
  rcases h with ((h | h) | h) | h
  · exact UInt8.lt_of_le_of_lt h.2 (by decide)
  · exact UInt8.lt_of_le_of_lt h.2 (by decide)
  · exact UInt8.lt_of_le_of_lt h.2 (by decide)
  · rcases h with rfl | rfl | rfl | rfl | rfl | rfl | rfl | rfl | rfl <;> decide

/-- Of what `encode_query_param` lets through, `encode_url` encodes the quote. -/
theorem encodeUrlByte_of_isUnreserved (h : isUnreserved c = true) :
    encodeUrlByte c = if c = 39 then percent c else [c] := by
  have hne : ∀ d, isUnreserved d = false → c ≠ d := by
    rintro d hd rfl
    rw [hd] at h
    cases h
  rw [encodeUrlByte]
  by_cases hquote : c = 39
  · rw [if_pos (by simp [hquote]), if_pos hquote]
  · rw [if_neg hquote, if_neg]
    rintro (heq | heq | heq | heq | heq | heq | heq | hle)
    · exact hne 32 (by decide) heq
    · exact hne 43 (by decide) heq
    · exact hne 13 (by decide) heq
    · exact hne 10 (by decide) heq
    · exact hquote heq
    · exact hne 44 (by decide) heq
    · exact hne 59 (by decide) heq
    · exact absurd (lt_of_isUnreserved h) (UInt8.not_lt.mpr hle)

/-- The two encodings of a character, one after the other. -/
theorem encodeBoth_eq (c : UInt8) :
    (if isUnreserved c then [c] else percent c).flatMap encodeUrlByte = encodeBoth c := by
  rw [encodeBoth]
  by_cases hc : isUnreserved c = true
  · rw [if_pos hc, List.flatMap_singleton, encodeUrlByte_of_isUnreserved hc, hc]
    by_cases hquote : c = 39
    · simp [hquote]
    · simp [hquote]
  · have hplain : ∀ b ∈ 37 :: (List.range 16).map upperHex, encodeUrlByte b = [b] := by
      decide +kernel
    rw [if_neg hc, if_neg (by simp [hc])]
    exact flatMap_eq_self fun b hb => hplain b (mem_percent hb)

/-- A value goes through both encodings. -/
theorem encodeQueryParam_flatMap (value : Text) :
    (encodeQueryParam value).flatMap encodeUrlByte = encodeValue value := by
  rw [encodeQueryParam, List.flatMap_assoc, encodeValue]
  exact congrArg (List.flatMap · value) (funext encodeBoth_eq)

/-- What an encoding keeps out of a text without it. -/
theorem not_mem_encoded {f : UInt8 → Text} (hf : ∀ c, f c = [c] ∨ f c = percent c)
    (hpercent : ∀ c, b ∉ percent c) (hs : b ∉ s) : b ∉ s.flatMap f := by
  rw [List.mem_flatMap]
  rintro ⟨c, hc, hb⟩
  rcases hf c with h | h
  · rw [h, List.mem_singleton] at hb
    exact hs (hb ▸ hc)
  · exact hpercent c (h ▸ hb)

/-- An encoding never shortens, and it leaves alone what it does not lengthen. -/
theorem encoded_plain {f : UInt8 → Text} (hf : ∀ c, f c = [c] ∨ f c = percent c) :
    s.length ≤ (s.flatMap f).length ∧
      ((s.flatMap f).length ≤ s.length → ∀ c ∈ s, f c = [c]) := by
  induction s with
  | nil => exact ⟨le_rfl, by simp⟩
  | cons c s ih =>
      rw [List.flatMap_cons, List.length_append, List.length_cons]
      rcases hf c with h | h
      · rw [h, List.length_singleton]
        refine ⟨by omega, fun hle => List.forall_mem_cons.mpr ⟨h, ih.2 (by omega)⟩⟩
      · have hlen : (f c).length = 3 := by rw [h]; rfl
        rw [hlen]
        exact ⟨by omega, fun hle => by omega⟩

/-- The characters that both encodings leave alone: the quote is encoded by the second. -/
theorem encodeBoth_eq_self_iff (c : UInt8) :
    encodeBoth c = [c] ↔ isUnreserved c = true ∧ c ≠ 39 := by
  rw [encodeBoth]
  split_ifs with h
  · simpa using h
  · refine iff_of_false (fun heq => ?_) (by simpa using h)
    exact absurd (congrArg List.length heq) (by simp [percent])

/-- A plain value is left alone. -/
theorem plainValue_iff : PlainValue s ↔ ∀ c ∈ s, encodeBoth c = [c] :=
  forall₂_congr fun c _ => (encodeBoth_eq_self_iff c).symm

/-- Only the empty value is sent as nothing. -/
theorem encodeValue_eq_nil : encodeValue s = [] ↔ s = [] := by
  have hlen := (encoded_plain (s := s) encodeBoth_cases).1
  constructor
  · intro h
    have hzero : (s.flatMap encodeBoth).length = 0 := by
      rw [← encodeValue, h]
      rfl
    exact List.eq_nil_of_length_eq_zero (by omega)
  · rintro rfl
    rfl

end Encoding

/-! ### Splitting -/

section Split

variable {sep : UInt8} {l rest piece : Text}

/-- A separator ends the piece. -/
theorem splitLoop_append (h : sep ∉ l) :
    splitLoop sep (l ++ sep :: rest) piece = (piece ++ l) :: splitLoop sep rest [] := by
  induction l generalizing piece with
  | nil =>
      rw [List.nil_append, splitLoop, if_pos rfl, List.append_nil]
  | cons c l ih =>
      rw [List.mem_cons, not_or] at h
      rw [List.cons_append, splitLoop, if_neg fun heq => h.1 heq.symm, ih h.2, List.append_assoc]
      rfl

/-- The last piece is kept if it is not empty. -/
theorem splitLoop_end (h : sep ∉ l) :
    splitLoop sep l piece = if piece ++ l = [] then [] else [piece ++ l] := by
  induction l generalizing piece with
  | nil => rw [splitLoop, List.append_nil]
  | cons c l ih =>
      rw [List.mem_cons, not_or] at h
      rw [splitLoop, if_neg fun heq => h.1 heq.symm, ih h.2, List.append_assoc]
      rfl

/-- **A text with a separator** is split there. -/
theorem split_append (h : sep ∉ l) : split sep (l ++ sep :: rest) = l :: split sep rest :=
  splitLoop_append h

/-- **A text without a separator** is its only piece, unless it is empty. -/
theorem split_end (h : sep ∉ l) : split sep l = if l = [] then [] else [l] :=
  splitLoop_end h

end Split

/-! ### What the server holds -/

section Parse

variable {params : List (Text × Text)} {query : Query} {p : Text × Text} {key value : Text}

/-- A parameter as it is sent. -/
def wireText (p : Text × Text) : Text := encodeKey p.1 ++ 61 :: encodeValue p.2

/-- A parameter as it is sent. -/
theorem paramText_flatMap (p : Text × Text) : (paramText p).flatMap encodeUrlByte = wireText p := by
  rw [paramText, List.flatMap_append, List.flatMap_cons, encodeQueryParam_flatMap]
  rfl

/-- An encoded value has none of the delimiters. -/
theorem not_mem_encodeValue (value : Text) :
    (38 : UInt8) ∉ encodeValue value ∧ (61 : UInt8) ∉ encodeValue value ∧
      (35 : UInt8) ∉ encodeValue value := by
  have hbyte : ∀ c b : UInt8, b ∈ encodeBoth c → b ≠ 38 ∧ b ≠ 61 ∧ b ≠ 35 := by
    intro c b hb
    rw [encodeBoth] at hb
    split_ifs at hb with hc
    · rw [List.mem_singleton.mp hb]
      refine ⟨?_, ?_, ?_⟩
      · rintro rfl
        exact absurd hc (by decide)
      · rintro rfl
        exact absurd hc (by decide)
      · rintro rfl
        exact absurd hc (by decide)
    · obtain ⟨-, h35, h38, h61, -⟩ := not_mem_percent c b hb
      exact ⟨h38, h61, h35⟩
  refine ⟨fun hmem => ?_, fun hmem => ?_, fun hmem => ?_⟩
  · obtain ⟨c, -, hb⟩ := List.mem_flatMap.mp hmem
    exact (hbyte c _ hb).1 rfl
  · obtain ⟨c, -, hb⟩ := List.mem_flatMap.mp hmem
    exact (hbyte c _ hb).2.1 rfl
  · obtain ⟨c, -, hb⟩ := List.mem_flatMap.mp hmem
    exact (hbyte c _ hb).2.2 rfl

/-- An encoded key has none of the delimiters. -/
theorem not_mem_encodeKey (h : ∀ c ∈ key, isUrlSafe c = true ∧ c ≠ 38 ∧ c ≠ 61) :
    (38 : UInt8) ∉ encodeKey key ∧ (61 : UInt8) ∉ encodeKey key ∧ (35 : UInt8) ∉ encodeKey key := by
  have hsafe : ∀ c ∈ key, c ≠ 35 := by
    rintro c hc rfl
    exact absurd (h 35 hc).1 (by decide)
  refine ⟨?_, ?_, ?_⟩
  · exact not_mem_encoded encodeUrlByte_cases (fun c hb => (not_mem_percent c _ hb).2.2.1 rfl)
      fun hc => (h 38 hc).2.1 rfl
  · exact not_mem_encoded encodeUrlByte_cases (fun c hb => (not_mem_percent c _ hb).2.2.2.1 rfl)
      fun hc => (h 61 hc).2.2 rfl
  · exact not_mem_encoded encodeUrlByte_cases (fun c hb => (not_mem_percent c _ hb).2.1 rfl)
      fun hc => hsafe 35 hc rfl

/-- The server splits the query where the client has joined it. -/
theorem split_queryLoop (h : KeysSafe params) :
    split 38 ((queryLoop params).flatMap encodeUrlByte) = params.map wireText := by
  have hwire : ∀ p : Text × Text, (∀ c ∈ p.1, isUrlSafe c = true ∧ c ≠ 38 ∧ c ≠ 61) →
      (38 : UInt8) ∉ wireText p := by
    intro p hp hmem
    rcases List.mem_append.mp hmem with hmem | hmem
    · exact (not_mem_encodeKey hp).1 hmem
    · rcases List.mem_cons.mp hmem with hmem | hmem
      · cases hmem
      · exact (not_mem_encodeValue p.2).1 hmem
  induction params with
  | nil => rfl
  | cons p params ih =>
      rw [KeysSafe, List.forall_mem_cons] at h
      cases params with
      | nil =>
          rw [queryLoop, paramText_flatMap, split_end (hwire p h.1), if_neg (by simp [wireText])]
          rfl
      | cons q params =>
          have hamp : encodeUrlByte 38 = [38] := by decide
          rw [queryLoop, List.flatMap_append, List.flatMap_cons, paramText_flatMap, hamp,
            List.singleton_append, split_append (hwire p h.1), ih h.2, List.map_cons (a := p)]

/-- What `parse_query` does with a parameter: one with an empty value has one piece only. -/
def store (query : Query) (p : Text × Text) : Query :=
  if p.2 = [] then query else Function.update query (encodeKey p.1) (some (encodeValue p.2))

/-- **A parameter is parsed** to what the server stores for it. -/
theorem parsePair_wireText (hp : ∀ c ∈ p.1, isUrlSafe c = true ∧ c ≠ 38 ∧ c ≠ 61) :
    parsePair query (wireText p) = store query p := by
  rw [parsePair, wireText, split_append (not_mem_encodeKey hp).2.1,
    split_end (not_mem_encodeValue p.2).2.1, store]
  simp only [encodeValue_eq_nil]
  split_ifs
  · rfl
  · rfl

/-- **What the server holds**: the parameters with a value, as they were sent. -/
theorem parseQuery_queryLoop (h : KeysSafe params) :
    parseQuery ((queryLoop params).flatMap encodeUrlByte) = params.foldl store fun _ => none := by
  rw [parseQuery, split_queryLoop h, List.foldl_map]
  exact List.foldl_ext _ _ _ fun query p hp => parsePair_wireText (h p hp)

/-- A value that is held was sent. -/
theorem sent_of_stored (h : params.foldl store query key = some value) :
    query key = some value ∨
      ∃ p ∈ params, p.2 ≠ [] ∧ encodeKey p.1 = key ∧ encodeValue p.2 = value := by
  induction params generalizing query with
  | nil => exact .inl h
  | cons p params ih =>
      rcases ih h with h | ⟨q, hq, hsent⟩
      · rw [store] at h
        split_ifs at h with hnil
        · exact .inl h
        · by_cases hkey : key = encodeKey p.1
          · rw [hkey, Function.update_self] at h
            exact .inr ⟨p, List.mem_cons_self .., hnil, hkey.symm, Option.some.inj h⟩
          · rw [Function.update_of_ne hkey] at h
            exact .inl h
      · exact .inr ⟨q, List.mem_cons_of_mem _ hq, hsent⟩

/-- A value that is sent is held, or another one of its key. -/
theorem stored_of_sent (hp : p ∈ params) (hvalue : p.2 ≠ []) :
    (params.foldl store query (encodeKey p.1)).isSome = true := by
  have hkeep : ∀ (params : List (Text × Text)) (query : Query) (key : Text),
      (query key).isSome = true → (params.foldl store query key).isSome = true := by
    intro params
    induction params with
    | nil => exact fun query key h => h
    | cons q params ih =>
        intro query key h
        refine ih _ key ?_
        rw [store]
        split_ifs
        · exact h
        · by_cases hkey : key = encodeKey q.1
          · rw [hkey, Function.update_self]
            rfl
          · rwa [Function.update_of_ne hkey]
  induction params generalizing query with
  | nil => cases hp
  | cons q params ih =>
      rcases List.mem_cons.mp hp with rfl | hp
      · refine hkeep params _ _ ?_
        rw [store, if_neg hvalue, Function.update_self]
        rfl
      · exact ih hp

end Parse

/-! ### The query of the URL -/

section Url

variable {path : Text} {params : Params}

/-- A byte of a query, but for its separators, is one of a parameter. -/
theorem mem_queryLoop {l : List (Text × Text)} {b : UInt8} (h : b ∈ queryLoop l) (hb : b ≠ 38) :
    ∃ p ∈ l, b ∈ paramText p := by
  induction l with
  | nil => cases h
  | cons p l ih =>
      cases l with
      | nil => exact ⟨p, List.mem_cons_self .., h⟩
      | cons q l =>
          rw [queryLoop, List.mem_append, List.mem_cons] at h
          rcases h with h | h | h
          · exact ⟨p, List.mem_cons_self .., h⟩
          · exact absurd h hb
          · obtain ⟨r, hr, hmem⟩ := ih h
            exact ⟨r, List.mem_cons_of_mem _ hr, hmem⟩

/-- `encode_query_param` lets nothing through that does not belong to a query. -/
theorem isQueryChar_of_isUnreserved {c : UInt8} (h : isUnreserved c = true) :
    isQueryChar c = true := by
  have hne : ∀ d, isUnreserved d = false → c ≠ d := by
    rintro d hd rfl
    rw [hd] at h
    cases h
  have hlow : 33 ≤ c := by
    simp only [isUnreserved, isAlnum, Bool.or_eq_true, decide_eq_true_eq, List.contains_iff_mem,
      List.mem_cons, List.not_mem_nil, or_false] at h
    rcases h with ((h | h) | h) | h
    · exact UInt8.le_trans (by decide) h.1
    · exact UInt8.le_trans (by decide) h.1
    · exact UInt8.le_trans (by decide) h.1
    · rcases h with rfl | rfl | rfl | rfl | rfl | rfl | rfl | rfl | rfl <;> decide
  have h35 := hne 35 (by decide)
  have h127 := hne 127 (by decide)
  by_cases h63 : c = 63
  · simp [isQueryChar, h63]
  · simp [isQueryChar, isUrlChar, hlow, h35, h63, h127]

/-- Hexadecimal characters go on with a query. -/
theorem isQueryChar_percent (c b : UInt8) (hb : b ∈ percent c) : isQueryChar b = true := by
  have hall : ∀ b ∈ 37 :: (List.range 16).map upperHex, isQueryChar b = true := by decide +kernel
  exact hall b (mem_percent hb)

/-- What `encode_url` makes of a character of a query goes on with a query. -/
theorem isQueryChar_encodeUrlByte {c b : UInt8} (hc : isQueryChar c = true)
    (hb : b ∈ encodeUrlByte c) : isQueryChar b = true := by
  rcases encodeUrlByte_cases c with h | h
  · rw [h, List.mem_singleton] at hb
    exact hb ▸ hc
  · exact isQueryChar_percent c b (h ▸ hb)

/-- **The query that is sent** consists of the characters of a query. -/
theorem isQueryChar_queryLoop {l : List (Text × Text)} {b : UInt8} (hsafe : KeysSafe l)
    (h : b ∈ queryLoop l) : isQueryChar b = true := by
  by_cases hb : b = 38
  · rw [hb]
    decide
  obtain ⟨p, hp, hmem⟩ := mem_queryLoop h hb
  rcases List.mem_append.mp hmem with hmem | hmem
  · have hkey := (hsafe p hp b hmem).1
    simp only [isUrlSafe, Bool.and_eq_true, decide_eq_true_eq, bne_iff_ne] at hkey
    have hdel : b ≠ 127 := by
      rintro rfl
      exact absurd hkey.1.2 (by decide)
    by_cases hmark : b = 63
    · simp [isQueryChar, hmark]
    · simp [isQueryChar, isUrlChar, hkey.1.1, hkey.2, hmark, hdel]
  · rcases List.mem_cons.mp hmem with rfl | hmem
    · decide
    · obtain ⟨c, -, hmem⟩ := List.mem_flatMap.mp hmem
      split_ifs at hmem with hc
      · rw [List.mem_singleton.mp hmem]
        exact isQueryChar_of_isUnreserved hc
      · exact isQueryChar_percent c b hmem

/-- `encode_url` leaves no break. -/
theorem not_isBreak_encodeUrl {s : Text} {b : UInt8} (hb : b ∈ encodeUrl s) : ¬ IsBreak b := by
  obtain ⟨c, -, hb⟩ := List.mem_flatMap.mp hb
  rw [encodeUrlByte] at hb
  split_ifs at hb with hc
  · exact HttpParser.not_isBreak (isQueryChar_percent c b hb)
  · rw [List.mem_singleton] at hb
    subst hb
    simp only [not_or] at hc
    rintro (rfl | rfl | rfl) <;> simp at hc

/-- The first question mark is the one that is appended. -/
theorem appendQueryParams_eq (hpath : (63 : UInt8) ∉ path) :
    appendQueryParams path params = path ++ 63 :: paramsToQueryStr params := by
  have hnone : path.dropWhile (· != 63) = [] := by
    rw [List.dropWhile_eq_nil_iff]
    intro c hc
    have hne : c ≠ 63 := fun heq => hpath (heq ▸ hc)
    simpa using hne
  rw [appendQueryParams, hasQuery, hnone]
  rfl

/-- What stands behind the end of a front part does not matter. -/
theorem takeWhile_append_of_mem {f : UInt8 → Bool} {c : UInt8} {l rest : Text} (hc : c ∈ l)
    (hf : f c = false) : (l ++ rest).takeWhile f = l.takeWhile f := by
  induction l with
  | nil => cases hc
  | cons b l ih =>
      rw [List.cons_append, List.takeWhile_cons, List.takeWhile_cons]
      rcases List.mem_cons.mp hc with rfl | hc
      · rw [hf]
        rfl
      · rw [ih hc]

/-- Encoding brings no question mark into a path. -/
theorem mark_not_mem_encoded {s : Text} (h : (63 : UInt8) ∉ s) :
    (63 : UInt8) ∉ s.flatMap encodeUrlByte :=
  not_mem_encoded encodeUrlByte_cases (fun c hb => (not_mem_percent c _ hb).2.2.2.2 rfl) h

/-- `encode_url` runs over path and parameters. -/
theorem encodeUrl_append (hnul : (0 : UInt8) ∉ path) (hsafe : KeysSafe params.items) :
    encodeUrl (path ++ 63 :: paramsToQueryStr params) = path.flatMap encodeUrlByte ++
      63 :: (queryLoop params.items).flatMap encodeUrlByte := by
  have hquery : (0 : UInt8) ∉ queryLoop params.items := fun hmem =>
    absurd (isQueryChar_queryLoop hsafe hmem) (by decide)
  have hmark : encodeUrlByte 63 = [63] := by decide
  rw [encodeUrl, cstr_eq_self, List.flatMap_append, List.flatMap_cons, hmark, paramsToQueryStr]
  · rfl
  · rw [List.mem_append, List.mem_cons]
    rintro (hmem | hmem | hmem)
    · exact hnul hmem
    · cases hmem
    · exact hquery hmem

/-- **A NUL** ends the path. -/
theorem encodeUrl_of_nul (hnul : (0 : UInt8) ∈ path) (rest : Text) :
    encodeUrl (path ++ rest) = encodeUrl path := by
  have hends : cstr (path ++ rest) = cstr path := takeWhile_append_of_mem hnul rfl
  rw [encodeUrl, hends, encodeUrl]

/-- **The query that the server finds** in a URL that is accepted and short: the one that was
sent, or none. -/
theorem urlQuery_taken {url : Text} (hpath : (63 : UInt8) ∉ path) (hsafe : KeysSafe params.items)
    (hfits : Fits path params) (hurl : requestUrl (sentUrl path params) = some url) :
    urlQuery url = if AtQuery (encodeUrl (path ++ [63])) then
      (queryLoop params.items).flatMap encodeUrlByte else [] := by
  have hbreak : ∀ c ∈ sentUrl path params, ¬ IsBreak c := fun _ hc => not_isBreak_encodeUrl hc
  obtain ⟨tail, rfl, htail⟩ := HttpParser.requestUrl_eq hbreak hurl
  have hmark : (63 : UInt8) ∉ path.flatMap encodeUrlByte := mark_not_mem_encoded hpath
  have hsent : sentUrl path params = encodeUrl (path ++ 63 :: paramsToQueryStr params) := by
    rw [sentUrl, appendQueryParams_eq hpath]
  rw [Fits, hsent] at hfits
  rw [hsent]
  by_cases hnul : (0 : UInt8) ∈ path
  · have hcut : (63 : UInt8) ∉ encodeUrl path :=
      mark_not_mem_encoded fun h => hpath (List.takeWhile_subset _ h)
    rw [encodeUrl_of_nul hnul, encodeUrl_of_nul hnul,
      if_neg (HttpParser.not_atQuery_of_not_mem hcut)]
    exact HttpParser.urlQuery_unmarked hcut htail
  · have hfront : encodeUrl (path ++ [63]) = path.flatMap encodeUrlByte ++ [63] := by
      have hone : encodeUrlByte 63 = [63] := by decide
      rw [encodeUrl, cstr_eq_self, List.flatMap_append, List.flatMap_singleton, hone]
      simpa using hnul
    rw [encodeUrl_append hnul hsafe] at hfits ⊢
    rw [hfront, List.append_assoc, List.cons_append]
    split_ifs with hquery
    · refine HttpParser.urlQuery_found hmark hquery ?_ htail ?_
      · intro b hb
        obtain ⟨c, hc, hb⟩ := List.mem_flatMap.mp hb
        exact isQueryChar_encodeUrlByte (isQueryChar_queryLoop hsafe hc) hb
      · rw [List.length_append, List.length_cons] at hfits
        omega
    · exact HttpParser.urlQuery_not_found hmark hquery

/-- The characters of a path are those that are sent as the characters of a path. -/
theorem isPathChar_iff (c : UInt8) :
    isPathChar c = true ↔ ∀ b ∈ encodeUrlByte c, isUrlChar b = true := by
  have hall : ∀ n < 256, isPathChar (UInt8.ofNat n) =
      (encodeUrlByte (UInt8.ofNat n)).all isUrlChar := by decide +kernel
  have hc := hall c.toNat c.toNat_lt
  rw [UInt8.ofNat_toNat] at hc
  rw [hc, List.all_eq_true]

/-- **Which paths the parser finds the query behind**, among those that begin with a slash. -/
theorem atQuery_slash_path_iff {l : Text} (hl : (63 : UInt8) ∉ l) :
    AtQuery (encodeUrl (47 :: (l ++ [63]))) ↔ ∀ c ∈ l, isPathChar c = true := by
  by_cases hnul : (0 : UInt8) ∈ l
  · have hcut : encodeUrl (47 :: (l ++ [63])) = encodeUrl (47 :: l) :=
      encodeUrl_of_nul (List.mem_cons_of_mem 47 hnul) [63]
    have hmark : (63 : UInt8) ∉ encodeUrl (47 :: l) := by
      refine mark_not_mem_encoded fun h => ?_
      rcases List.mem_cons.mp (List.takeWhile_subset _ h) with h | h
      · cases h
      · exact hl h
    rw [hcut]
    exact iff_of_false (HttpParser.not_atQuery_of_not_mem hmark)
      fun h => absurd (h 0 hnul) (by decide)
  · have hsent : encodeUrl (47 :: (l ++ [63])) = 47 :: (l.flatMap encodeUrlByte ++ [63]) := by
      have hslash : encodeUrlByte 47 = [47] := by decide
      have hmark : encodeUrlByte 63 = [63] := by decide
      rw [encodeUrl, cstr_eq_self (by simpa using hnul), List.flatMap_cons, hslash,
        List.flatMap_append, List.flatMap_singleton, hmark]
      rfl
    rw [hsent, HttpParser.atQuery_slash_iff (mark_not_mem_encoded hl)]
    simp only [isPathChar_iff, List.mem_flatMap]
    exact ⟨fun h c hc b hb => h b ⟨c, hc, hb⟩, fun h b ⟨c, hc, hb⟩ => h c hc b hb⟩

/-- **A path of such characters** is accepted, with any parameters. -/
theorem slash_path_taken {l : Text} (hl : ∀ c ∈ l, isPathChar c = true)
    (hsafe : KeysSafe params.items) : Taken (47 :: l) params := by
  have hnot : ∀ d, isPathChar d = false → d ∉ 47 :: l := by
    intro d hd hmem
    rcases List.mem_cons.mp hmem with rfl | hmem
    · exact absurd hd (by decide)
    · rw [hl d hmem] at hd
      cases hd
  have hslash : encodeUrlByte 47 = [47] := by decide
  rw [Taken, sentUrl, appendQueryParams_eq (hnot 63 (by decide)),
    encodeUrl_append (hnot 0 (by decide)) hsafe, List.flatMap_cons, hslash, List.singleton_append,
    List.cons_append, HttpParser.requestUrl_slash]
  · rfl
  · intro b hb
    obtain ⟨c, hc, hb⟩ := List.mem_flatMap.mp hb
    exact (isPathChar_iff c).mp (hl c hc) b hb
  · intro b hb
    obtain ⟨c, hc, hb⟩ := List.mem_flatMap.mp hb
    exact isQueryChar_encodeUrlByte (isQueryChar_queryLoop hsafe hc) hb

end Url

/-! ### What arrives -/

section Arrival

variable {path : Text} {params : Params} {p : Text × Text}

/-- A value that is received is the sent text of a parameter. -/
theorem sent_of_value {url : Text} (hpath : (63 : UInt8) ∉ path) (hsafe : KeysSafe params.items)
    (hfits : Fits path params) (hurl : requestUrl (sentUrl path params) = some url) {key : Text}
    (h : getQuery (parseQuery (urlQuery url)) key ≠ []) :
    AtQuery (encodeUrl (path ++ [63])) ∧ key ≠ [] ∧ ∃ q ∈ params.items, q.2 ≠ [] ∧
      encodeKey q.1 = key ∧ encodeValue q.2 = getQuery (parseQuery (urlQuery url)) key := by
  rw [urlQuery_taken hpath hsafe hfits hurl] at h ⊢
  by_cases hquery : AtQuery (encodeUrl (path ++ [63]))
  · rw [if_pos hquery, getQuery] at h ⊢
    split_ifs at h ⊢ with hkey
    · exact absurd rfl h
    · refine ⟨hquery, hkey, ?_⟩
      rw [parseQuery_queryLoop hsafe] at h ⊢
      cases hstored : params.items.foldl store (fun _ => none) key with
      | none =>
          rw [hstored] at h
          exact absurd rfl h
      | some value =>
          rcases sent_of_stored hstored with hnone | hsent
          · cases hnone
          · exact hsent
  · refine absurd ?_ h
    rw [if_neg hquery, getQuery]
    split_ifs
    · rfl
    · rfl

/-- **No value is mended by another**: if every value arrives, neither encoding has touched a
parameter with a value. By induction on its size, since the parameter whose text arrives for it
is no longer, and shorter if it was touched. -/
theorem plain_of_value {url : Text} (hpath : (63 : UInt8) ∉ path) (hsafe : KeysSafe params.items)
    (hfits : Fits path params) (hurl : requestUrl (sentUrl path params) = some url)
    (h : ∀ p ∈ params.items, getQuery (parseQuery (urlQuery url)) p.1 = p.2) (n : ℕ) :
    ∀ p ∈ params.items, p.2 ≠ [] → p.1.length + p.2.length = n →
      PlainKey p.1 ∧ PlainValue p.2 := by
  induction n using Nat.strong_induction_on with
  | _ n ih =>
      rintro p hp hvalue rfl
      have hne : getQuery (parseQuery (urlQuery url)) p.1 ≠ [] := by rwa [h p hp]
      obtain ⟨-, -, q, hq, hqvalue, hkey, hval⟩ := sent_of_value hpath hsafe hfits hurl hne
      rw [h p hp] at hval
      obtain ⟨hklen, hkplain⟩ := encoded_plain (s := q.1) encodeUrlByte_cases
      obtain ⟨hvlen, hvplain⟩ := encoded_plain (s := q.2) encodeBoth_cases
      have hk : (q.1.flatMap encodeUrlByte).length = p.1.length := congrArg List.length hkey
      have hv : (q.2.flatMap encodeBoth).length = p.2.length := congrArg List.length hval
      -- either way the other parameter is plain, so that it is this one
      have hplain : PlainKey q.1 ∧ PlainValue q.2 := by
        by_cases hlt : q.1.length + q.2.length < p.1.length + p.2.length
        · exact ih _ hlt q hq hqvalue rfl
        · exact ⟨hkplain (by omega), plainValue_iff.mpr (hvplain (by omega))⟩
      have hsame : q = p := by
        refine Prod.ext ?_ ?_
        · rw [← hkey]
          exact (flatMap_eq_self hplain.1).symm
        · rw [← hval]
          exact (flatMap_eq_self (plainValue_iff.mp hplain.2)).symm
      exact hsame ▸ hplain

/-- **What arrives is what was sent**, if each parameter fits to the encodings. -/
theorem value_of_arrives {url : Text} (hpath : (63 : UInt8) ∉ path)
    (hkeys : (params.items.map Prod.fst).Nodup) (hsafe : KeysSafe params.items)
    (hfits : Fits path params) (hurl : requestUrl (sentUrl path params) = some url)
    (h : ∀ p ∈ params.items, Arrives path p) (hp : p ∈ params.items) :
    getQuery (parseQuery (urlQuery url)) p.1 = p.2 := by
  -- what arrives for the key is the parameter itself
  have hown : ∀ q ∈ params.items, q.2 ≠ [] → encodeKey q.1 = p.1 → q = p := by
    intro q hq hqvalue hkey
    obtain ⟨-, -, hplain, -⟩ := (h q hq).resolve_left hqvalue
    refine List.inj_on_of_nodup_map hkeys hq hp ?_
    rw [← hkey]
    exact (flatMap_eq_self hplain).symm
  by_cases hnone : getQuery (parseQuery (urlQuery url)) p.1 = []
  · by_contra hne
    have hvalue : p.2 ≠ [] := fun heq => hne (by rw [hnone, heq])
    obtain ⟨hquery, hkey, hplain, -⟩ := (h p hp).resolve_left hvalue
    have hstored : (params.items.foldl store (fun _ => none) (encodeKey p.1)).isSome = true :=
      stored_of_sent hp hvalue
    rw [encodeKey, flatMap_eq_self hplain] at hstored
    obtain ⟨value, hvalue'⟩ := Option.isSome_iff_exists.mp hstored
    rw [urlQuery_taken hpath hsafe hfits hurl, if_pos hquery, parseQuery_queryLoop hsafe,
      getQuery, if_neg hkey, hvalue', Option.getD_some] at hnone
    rcases sent_of_stored hvalue' with hnone' | ⟨q, -, hqvalue, -, hqval⟩
    · cases hnone'
    · exact hqvalue (encodeValue_eq_nil.mp (hqval.trans hnone))
  · obtain ⟨-, -, q, hq, hqvalue, hkey, hval⟩ := sent_of_value hpath hsafe hfits hurl hnone
    obtain rfl := hown q hq hqvalue hkey
    obtain ⟨-, -, -, hplain⟩ := (h q hq).resolve_left hqvalue
    rw [← hval]
    exact flatMap_eq_self (plainValue_iff.mp hplain)

/-- What is received once the URL is reported. -/
theorem received_of_url {url : Text} (hurl : requestUrl (sentUrl path params) = some url)
    (key : Text) :
    received path params key = some (getQuery (parseQuery (urlQuery url)) key) := by
  rw [received, serverQuery, hurl]
  rfl

/-- **Query parameters.** For a path without a question mark, and distinct keys of characters that
may stand in a query, every value arrives if the URL is accepted and short and each parameter fits
to the encodings. Nothing arrives with a request that is refused, and with a short URL each
parameter has to fit. -/
theorem query_arrives_iff (path : Text) (params : Params) (hpath : (63 : UInt8) ∉ path)
    (hkeys : (params.items.map Prod.fst).Nodup) (hsafe : KeysSafe params.items) :
    (Taken path params ∧ Fits path params ∧ (∀ p ∈ params.items, Arrives path p) →
      ∀ p ∈ params.items, received path params p.1 = some p.2) ∧
    ((∀ p ∈ params.items, received path params p.1 = some p.2) →
      ∀ p ∈ params.items, Taken path params ∧ (Fits path params → Arrives path p)) := by
  constructor
  · rintro ⟨htaken, hfits, h⟩ p hp
    obtain ⟨url, hurl⟩ := Option.isSome_iff_exists.mp htaken
    rw [received_of_url hurl, value_of_arrives hpath hkeys hsafe hfits hurl h hp]
  · intro h p hp
    cases hurl : requestUrl (sentUrl path params) with
    | none =>
        have hnone := h p hp
        rw [received, serverQuery, hurl] at hnone
        cases hnone
    | some url =>
        refine ⟨Option.isSome_iff_exists.mpr ⟨url, hurl⟩, fun hfits => ?_⟩
        have hall : ∀ p ∈ params.items, getQuery (parseQuery (urlQuery url)) p.1 = p.2 :=
          fun p hp => Option.some.inj ((received_of_url hurl p.1).symm.trans (h p hp))
        by_cases hvalue : p.2 = []
        · exact .inl hvalue
        have hne : getQuery (parseQuery (urlQuery url)) p.1 ≠ [] := by rwa [hall p hp]
        obtain ⟨hquery, hkey, -⟩ := sent_of_value hpath hsafe hfits hurl hne
        exact .inr ⟨hquery, hkey, plain_of_value hpath hsafe hfits hurl hall _ p hp hvalue rfl⟩

end Arrival

/-- Two parameters, one of them empty. -/
def twoParams (value : Text) : Params :=
  ((Multimap.empty byteValues).emplace (ascii "k") value).emplace (ascii "e") []

/-- Letters arrive, and so does an empty value. -/
theorem letters_arrive :
    received (ascii "/p") (twoParams (ascii "abc")) (ascii "k") = some (ascii "abc") ∧
      received (ascii "/p") (twoParams (ascii "abc")) (ascii "e") = some [] := by
  have hitems : (twoParams (ascii "abc")).items =
      [(ascii "e", []), (ascii "k", ascii "abc")] := by decide
  have hquery : AtQuery (encodeUrl (ascii "/p" ++ [63])) := by decide
  have h := (query_arrives_iff (ascii "/p") (twoParams (ascii "abc")) (by decide) (by decide)
    (by decide)).1 ⟨by unfold Taken; decide, by unfold Fits; decide, by
      rw [hitems, List.forall_mem_cons, List.forall_mem_singleton]
      exact ⟨.inl rfl, .inr ⟨hquery, by decide, by decide, by decide⟩⟩⟩
  rw [hitems, List.forall_mem_cons, List.forall_mem_singleton] at h
  exact ⟨h.2, h.1⟩

/-- **A space does not arrive**: the server hands out `a%20b`. -/
theorem space_not_decoded :
    received (ascii "/p") (twoParams (ascii "a b")) (ascii "k") = some (ascii "a%20b") ∧
    ¬ ∀ p ∈ (twoParams (ascii "a b")).items,
      received (ascii "/p") (twoParams (ascii "a b")) p.1 = some p.2 := by
  have hspace : received (ascii "/p") (twoParams (ascii "a b")) (ascii "k") =
      some (ascii "a%20b") := by decide
  refine ⟨hspace, fun h => ?_⟩
  have hsent := h (ascii "k", ascii "a b") (by decide)
  rw [hspace] at hsent
  revert hsent
  decide

end ArchNet.HttpQuery

import ArchNet.HttpClientRequest
import Mathlib.Data.List.DropRight

/-!
# Responses of the HTTP Server

`HttpResponse::json`, `text` and `html` put a content type into the header map and build the
bytes of the response: the status line, the date, the length of the body, the headers and the
body. This module models the builder and says when its bytes are read back.

## Conventions

* An `unordered_map` is the list of its entries, with different keys; the order in which it is
  iterated over is a permutation of them (`IterationOrder`).
* What `strftime` has written is a field value (`Date`).
* A response is read lexically (`parseResponse`), from a connection that goes on behind it: its
  end is where its one length says, whatever the status.

## Main results

* `parseResponse_wire`: what is read back, field by field.
* `readBack_iff`: **a response is read back exactly if its status is not 400, the headers are
  in order, and none of them is about the framing.**
-/

open Bytes

namespace ArchNet.Http

open Routing (Text)
open HttpClient (Field crlf isTokenChar isFieldChar numberOf lengthFields)

/-! ### The code -/

/-- `http_status_code`. -/
def httpStatusCode : List (ℕ × Text) :=
  [(100, ascii "Continue"), (101, ascii "Switching Protocols"), (200, ascii "OK"),
    (201, ascii "Created"), (202, ascii "Accepted"),
    (203, ascii "Non-Authoritative Information"), (204, ascii "No Content"),
    (205, ascii "Reset Content"), (206, ascii "Partial Content"), (300, ascii "Multiple Choices"),
    (301, ascii "Moved Permanently"), (302, ascii "Found"), (303, ascii "See Other"),
    (304, ascii "Not Modified"), (305, ascii "Use Proxy"), (307, ascii "Temporary Redirect"),
    (400, ascii "Bad Request"), (401, ascii "Unauthorized"), (402, ascii "Payment Required"),
    (403, ascii "Forbidden"), (404, ascii "Not Found"), (405, ascii "Method Not Allowed"),
    (406, ascii "Not Acceptable"), (407, ascii "Proxy Authentication Required"),
    (408, ascii "Request Time-out"), (409, ascii "Conflict"), (410, ascii "Gone"),
    (411, ascii "Length Required"), (412, ascii "Precondition Failed"),
    (413, ascii "Request Entity Too Large"), (414, ascii "Request-URI Too Large"),
    (415, ascii "Unsupported Media Type"), (416, ascii "Requested range not satisfiable"),
    (417, ascii "Expectation Failed"), (500, ascii "Internal Server Error"),
    (501, ascii "Not Implemented"), (502, ascii "Bad Gateway"),
    (503, ascii "Service Unavailable"), (504, ascii "Gateway Time-out"),
    (505, ascii "HTTP Version not supported"), (808, ascii "UnKnown")]

/-- `find(code)`, and `find(808)` where there is none. -/
def findStatus (code : ℤ) : ℕ × Text :=
  (httpStatusCode.find? fun e => (e.1 : ℤ) = code).getD (808, ascii "UnKnown")

/-- The header map: entries with different keys. -/
structure HeaderMap where
  entries : List Field
  nodup : (entries.map Prod.fst).Nodup

/-- `headers_[key] = value`. -/
def HeaderMap.set (m : HeaderMap) (key value : Text) : HeaderMap where
  entries := (key, value) :: m.entries.filter fun f => f.1 ≠ key
  nodup := by
    rw [List.map_cons, List.nodup_cons]
    refine ⟨?_, m.nodup.sublist ((List.filter_sublist).map _)⟩
    intro hmem
    obtain ⟨f, hf, hkey⟩ := List.mem_map.mp hmem
    simp [hkey] at hf

/-- In which order the map is iterated over. -/
structure IterationOrder where
  order : List Field → List Field
  perm : ∀ l, (order l).Perm l

/-- `HttpResponse`; `buffer` holds the unread bytes of `buffer_`. -/
structure HttpResponse where
  httpStatusCode : ℤ
  headers : HeaderMap
  buffer : Text

/-- The blanks around a value. -/
def isBlank (c : UInt8) : Bool := c == 32 || c == 9

/-- A value without the blanks around it. -/
def trim (v : Text) : Text := (v.dropWhile isBlank).rdropWhile isBlank

/-- What `strftime` writes for the date of a response. -/
structure Date where
  text : Text
  chars : text.all isFieldChar = true
  trimmed : trim text = text

/-- `%ld`. -/
def formatLong (z : ℤ) : Text := if z < 0 then 45 :: decimal z.natAbs else decimal z.natAbs

/-- A `size_t` as an `int64_t`. -/
def asInt64 (n : ℕ) : ℤ :=
  if n % 2 ^ 64 < 2 ^ 63 then (n % 2 ^ 64 : ℕ) else ((n % 2 ^ 64 : ℕ) : ℤ) - 2 ^ 64

/-- A header as the code writes it: there is no blank behind the colon. -/
def headerLine (f : Field) : Text := f.1 ++ 58 :: f.2

/-- `add_date`: nothing if `strftime` fails. -/
def dateLines : Option Date → List Text
  | none => []
  | some date => [headerLine (ascii "Date", date.text)]

/-- `add_content_len(body.size())`. -/
def lengthField (body : Text) : Field := (ascii "Content-Length", formatLong (asInt64 body.length))

/-- `make_response`. -/
def HttpResponse.makeResponse (r : HttpResponse) (it : IterationOrder) (date : Option Date)
    (body : Text) : HttpResponse :=
  let e := findStatus r.httpStatusCode
  let status := ascii "HTTP/1.1 " ++ decimal e.1 ++ 32 :: e.2 ++ crlf
  if r.httpStatusCode = 400 then
    { r with buffer := r.buffer ++ status ++ crlf }
  else
    let head := (dateLines date ++ [headerLine (lengthField body)]).flatMap (· ++ crlf)
    let headers := (it.order r.headers.entries).flatMap fun f => headerLine f ++ crlf
    { r with buffer := r.buffer ++ status ++ head ++ headers ++ crlf ++ body }

/-- What the three entry points do, up to the content type. -/
def HttpResponse.respond (contentType : Text) (r : HttpResponse) (it : IterationOrder)
    (date : Option Date) (statusCode : ℤ) (data : Text) : HttpResponse :=
  HttpResponse.makeResponse
    ⟨statusCode, r.headers.set (ascii "Content-Type") contentType, []⟩ it date data

/-- `json`. -/
def HttpResponse.json : HttpResponse → IterationOrder → Option Date → ℤ → Text → HttpResponse :=
  HttpResponse.respond (ascii "application/json; charset=utf-8")

/-- `text`. -/
def HttpResponse.text : HttpResponse → IterationOrder → Option Date → ℤ → Text → HttpResponse :=
  HttpResponse.respond (ascii "text/plain; charset=UTF-8")

/-- `html`. -/
def HttpResponse.html : HttpResponse → IterationOrder → Option Date → ℤ → Text → HttpResponse :=
  HttpResponse.respond (ascii "text/html; charset=UTF-8")

/-! ### Reading a response -/

/-- A response that has been read. -/
structure ReadResponse where
  status : ℕ
  fields : List Field
  body : Text
  deriving DecidableEq, Repr

/-- A status line: the version, three digits, and the reason. -/
def parseStatusLine (l : Text) : Option ℕ :=
  let digits := (l.drop 9).take 3
  if l.take 9 = ascii "HTTP/1.1 " ∧ digits.length = 3 ∧
      digits.all (fun c => decide (48 ≤ c ∧ c ≤ 57)) ∧ (l.drop 12).head? = some 32 then
    some (decimalVal digits)
  else none

/-- A header: a token, a colon, and a value between blanks. -/
def parseField (l : Text) : Option Field :=
  let name := l.takeWhile (· != 58)
  let value := trim (l.drop (name.length + 1))
  if 58 ∈ l ∧ name ≠ [] ∧ name.all isTokenChar ∧ value.all isFieldChar then some (name, value)
  else none

/-- The length that the fields give: there is one, and no transfer coding. -/
def bodyLength (fields : List Field) : Option ℕ :=
  if fields.countP (Field.named (ascii "Transfer-Encoding")) = 0 then
    match lengthFields fields with
    | [f] => numberOf f.2
    | _ => none
  else none

/-- The headers of a block of lines. -/
def parseFields : List Text → Option (List Field)
  | [] => some []
  | l :: ls => (parseField l).bind fun f => (parseFields ls).map (f :: ·)

/-- **A response is read** from a connection that stays open, together with what stands behind
it: without a length, where it ends cannot be told. -/
def parseResponse (wire : Text) : Option (ReadResponse × Text) := do
  let (lines, rest) ← Lines.splitBlock 13 10 (wire.length + 1) wire
  let status ← parseStatusLine (lines.headD [])
  let fields ← parseFields lines.tail
  let n ← bodyLength fields
  if n ≤ rest.length then return (⟨status, fields, rest.take n⟩, rest.drop n) else none

/-- **The response is read back**, whatever stands behind it: with the status, with the headers
and with the body, and with the body's length. -/
def ReadBack (code : ℤ) (headers : List Field) (body wire : Text) : Prop :=
  ∃ m : ReadResponse, (∀ behind, parseResponse (wire ++ behind) = some (m, behind)) ∧
    (m.status : ℤ) = code ∧ headers.Subperm m.fields ∧
    bodyLength m.fields = some body.length ∧ m.body = body

/-! ### The lines of a response -/

/-- The status line. -/
def statusLine (e : ℕ × Text) : Text := ascii "HTTP/1.1 " ++ decimal e.1 ++ 32 :: e.2

/-- The lines of a response that has a body. -/
def responseLines (e : ℕ × Text) (date : Option Date) (body : Text) (headers : List Field) :
    List Text :=
  statusLine e :: (dateLines date ++ [headerLine (lengthField body)] ++ headers.map headerLine)

/-- A response that is not a bad request is a block of lines, and the body. -/
theorem makeResponse_of_ne {r : HttpResponse} (h : r.httpStatusCode ≠ 400) (it : IterationOrder)
    (date : Option Date) (body : Text) :
    (r.makeResponse it date body).buffer = r.buffer ++
      (Lines.block crlf (responseLines (findStatus r.httpStatusCode) date body
        (it.order r.headers.entries)) ++ body) := by
  rw [HttpResponse.makeResponse]
  dsimp only
  rw [if_neg h]
  simp only [Lines.block, Lines.terminated, responseLines, statusLine, List.flatMap_cons,
    List.flatMap_append, List.flatMap_map, List.append_assoc, List.flatMap_nil, List.append_nil,
    List.nil_append, List.cons_append]

/-- A bad request is one line. -/
theorem makeResponse_of_eq {r : HttpResponse} (h : r.httpStatusCode = 400) (it : IterationOrder)
    (date : Option Date) (body : Text) :
    (r.makeResponse it date body).buffer =
      r.buffer ++ Lines.block crlf [statusLine (400, ascii "Bad Request")] := by
  have hfind : findStatus 400 = (400, ascii "Bad Request") := by decide
  rw [HttpResponse.makeResponse]
  dsimp only
  rw [if_pos h, h, hfind]
  simp only [Lines.block, Lines.terminated, statusLine, List.flatMap_cons, List.append_assoc,
    List.flatMap_nil, List.append_nil, List.cons_append]

/-- The table lists its codes in ascending order. -/
theorem nodup_codes : (httpStatusCode.map Prod.fst).Nodup := by
  have hchain : (httpStatusCode.map Prod.fst).IsChain (· < ·) := by decide
  exact (List.isChain_iff_pairwise.mp hchain).imp Nat.ne_of_lt

/-- A code of the table is **found with its reason**. -/
theorem findStatus_eq {e : ℕ × Text} (he : e ∈ httpStatusCode) : findStatus e.1 = e := by
  have hsome : (httpStatusCode.find? fun f => (f.1 : ℤ) = e.1).isSome :=
    List.find?_isSome.mpr ⟨e, he, decide_eq_true rfl⟩
  obtain ⟨f, hf⟩ := Option.isSome_iff_exists.mp hsome
  have hcode : f.1 = e.1 := by simpa using List.find?_some hf
  rw [findStatus, hf, Option.getD_some]
  exact List.inj_on_of_nodup_map nodup_codes (List.mem_of_find?_eq_some hf) he hcode

/-- A status line with three digits is read. -/
theorem parseStatusLine_of_length {e : ℕ × Text} (h : (decimal e.1).length = 3) :
    parseStatusLine (statusLine e) = some e.1 := by
  have hversion : (ascii "HTTP/1.1 ").length = 9 := by decide
  have htake : (statusLine e).take 9 = ascii "HTTP/1.1 " := by
    rw [statusLine, List.append_assoc, List.take_left' hversion]
  have hdrop : (statusLine e).drop 9 = decimal e.1 ++ 32 :: e.2 := by
    rw [statusLine, List.append_assoc, List.drop_left' hversion]
  have hreason : (statusLine e).drop 12 = 32 :: e.2 := by
    rw [show 12 = 9 + 3 from rfl, ← List.drop_drop, hdrop, List.drop_left' h]
  have hdigits : (decimal e.1).all (fun c => decide (48 ≤ c ∧ c ≤ 57)) = true :=
    List.all_eq_true.mpr fun c hc => decide_eq_true (digit_of_mem_decimal hc)
  rw [parseStatusLine, htake, hdrop, hreason, List.take_left' h]
  exact (if_pos ⟨rfl, h, hdigits, rfl⟩).trans (congrArg some (decimalVal_decimal e.1))

/-- Every status line is read, and has no line break. -/
theorem parseStatusLine_statusLine {e : ℕ × Text} (he : e ∈ httpStatusCode) :
    parseStatusLine (statusLine e) = some e.1 ∧ (13 : UInt8) ∉ statusLine e := by
  have hlength : ∀ e ∈ httpStatusCode, (decimal e.1).length = 3 := by decide
  have hreason : ∀ e ∈ httpStatusCode, (13 : UInt8) ∉ e.2 := by decide +kernel
  refine ⟨parseStatusLine_of_length (hlength e he), ?_⟩
  intro hmem
  rw [statusLine, List.append_assoc, List.mem_append, List.mem_append, List.mem_cons] at hmem
  rcases hmem with hversion | hcode | hblank | hin
  · exact absurd hversion (by decide)
  · exact absurd (digit_of_mem_decimal hcode).1 (by decide)
  · exact absurd hblank (by decide)
  · exact hreason e he hin

/-! ### Headers -/

/-- **A header that survives**: a token, and a value of printable characters without blanks
around it. -/
def Survives (f : Field) : Prop := HttpClient.Field.Ok f ∧ trim f.2 = f.2

instance (f : Field) : Decidable (Survives f) := inferInstanceAs (Decidable (_ ∧ _))

/-- Cutting blanks off again changes nothing. -/
theorem trim_trim (v : Text) : trim (trim v) = trim v := by
  -- What is left starts as the value does behind its blanks, or is empty.
  have hfront : (trim v).dropWhile isBlank = trim v := by
    have hpre : trim v <+: v.dropWhile isBlank := List.rdropWhile_prefix _ _
    generalize trim v = w at hpre
    cases w with
    | nil => rfl
    | cons c w =>
        obtain ⟨rest, hrest⟩ := hpre
        have hc := List.head?_dropWhile_not isBlank v
        rw [← hrest] at hc
        rw [List.dropWhile_cons_of_neg]
        simpa using hc
  conv_lhs => rw [trim, hfront]
  exact List.rdropWhile_idempotent _ _

theorem not_mem_of_token {l : Text} (h : l.all isTokenChar = true) {c : UInt8}
    (hc : isTokenChar c = false) : c ∉ l := by
  intro hmem
  rw [List.all_eq_true.mp h c hmem] at hc
  cases hc

/-- The name and the value of a line with a colon. -/
theorem parseField_headerLine {f : Field} (hname : (58 : UInt8) ∉ f.1) :
    parseField (headerLine f) =
      if f.1 ≠ [] ∧ f.1.all isTokenChar ∧ (trim f.2).all isFieldChar then some (f.1, trim f.2)
      else none := by
  have htake : (headerLine f).takeWhile (· != 58) = f.1 := by
    rw [headerLine, List.takeWhile_append_of_pos, List.takeWhile_cons_of_neg (by decide),
      List.append_nil]
    intro c hc
    have hne : c ≠ 58 := fun heq => hname (heq ▸ hc)
    simpa using hne
  have hdrop : (headerLine f).drop (f.1.length + 1) = f.2 := by
    rw [headerLine, ← List.drop_drop, List.drop_left]
    rfl
  have hcolon : (58 : UInt8) ∈ headerLine f := by simp [headerLine]
  rw [parseField, htake, hdrop]
  simp only [hcolon, true_and]

/-- **A header that survives is read back.** -/
theorem parseField_of_survives {f : Field} (h : Survives f) :
    parseField (headerLine f) = some f := by
  obtain ⟨⟨hne, hname, hvalue⟩, htrim⟩ := h
  rw [parseField_headerLine (not_mem_of_token hname (by decide)), htrim,
    if_pos ⟨hne, hname, hvalue⟩]

/-- **Whatever is read survives.** -/
theorem survives_of_parseField {l : Text} {f : Field} (h : parseField l = some f) : Survives f := by
  rw [parseField] at h
  split at h
  · rename_i hok
    obtain rfl := Option.some.inj h
    exact ⟨⟨hok.2.1, hok.2.2.1, hok.2.2.2⟩, trim_trim _⟩
  · cases h

theorem parseFields_of_survives {fs : List Field} (h : ∀ f ∈ fs, Survives f) :
    parseFields (fs.map headerLine) = some fs := by
  induction fs with
  | nil => rfl
  | cons f fs ih =>
      obtain ⟨hf, hfs⟩ := List.forall_mem_cons.mp h
      rw [List.map_cons, parseFields, parseField_of_survives hf, ih hfs]
      rfl

theorem survives_of_parseFields {ls : List Text} {fs : List Field} (h : parseFields ls = some fs) :
    ∀ f ∈ fs, Survives f := by
  induction ls generalizing fs with
  | nil =>
      obtain rfl := Option.some.inj h
      simp
  | cons l ls ih =>
      obtain ⟨f, hf, h⟩ := Option.bind_eq_some_iff.mp h
      obtain ⟨rest, hrest, rfl⟩ := Option.map_eq_some_iff.mp h
      exact List.forall_mem_cons.mpr ⟨survives_of_parseField hf, ih hrest⟩

/-! ### The length -/

/-- **The length that is written is the body's**, for every size that an `int64_t` holds. -/
theorem numberOf_formatLong (n : ℕ) : numberOf (formatLong (asInt64 n)) = some n ↔ n < 2 ^ 63 := by
  rcases Nat.lt_or_ge (n % 2 ^ 64) (2 ^ 63) with hlt | hge
  · have hlong : formatLong (asInt64 n) = decimal (n % 2 ^ 64) := by
      rw [asInt64, if_pos hlt, formatLong, if_neg (by omega), Int.natAbs_natCast]
    rw [hlong, HttpClient.numberOf_decimal, Option.some.injEq]
    omega
  · have hneg : asInt64 n < 0 := by
      rw [asInt64, if_neg (Nat.not_lt.mpr hge)]
      omega
    refine iff_of_false ?_ (by omega)
    rw [formatLong, if_pos hneg]
    -- What is left without the blanks starts with the minus sign, which is no digit.
    have hpre : trim (45 :: decimal (asInt64 n).natAbs) <+: 45 :: decimal (asInt64 n).natAbs := by
      rw [trim, List.dropWhile_cons_of_neg (by decide)]
      exact List.rdropWhile_prefix _ _
    change (if trim _ ≠ [] ∧ (trim _).all _ then some _ else none) ≠ some n
    generalize trim (45 :: decimal (asInt64 n).natAbs) = digits at hpre
    cases digits with
    | nil => simp
    | cons c digits =>
        obtain rfl : c = 45 := (List.cons_prefix_cons.mp hpre).1
        simp

theorem trim_of_not_blank {v : Text} (h : ∀ c ∈ v, isBlank c = false) : trim v = v := by
  have hdrop : v.dropWhile isBlank = v := by
    cases v with
    | nil => rfl
    | cons c v => exact List.dropWhile_cons_of_neg (by simp [h c (List.mem_cons_self ..)])
  rw [trim, hdrop, List.rdropWhile_eq_self_iff]
  intro hne
  simp [h _ (List.getLast_mem hne)]

/-- The characters of a length. -/
theorem mem_formatLong {z : ℤ} {c : UInt8} (h : c ∈ formatLong z) : c = 45 ∨ 48 ≤ c ∧ c ≤ 57 := by
  rw [formatLong] at h
  split at h
  · rcases List.mem_cons.mp h with rfl | h
    · exact .inl rfl
    · exact .inr (digit_of_mem_decimal h)
  · exact .inr (digit_of_mem_decimal h)

/-! ### Reading the lines back -/

/-- No line break. -/
def Unbroken (l : Text) : Prop := (13 : UInt8) ∉ l ∧ (10 : UInt8) ∉ l

/-- A header without line breaks is a line. -/
theorem isLine_headerLine {f : Field} (hname : (13 : UInt8) ∉ f.1) (hvalue : (13 : UInt8) ∉ f.2) :
    Lines.IsLine 13 (headerLine f) := by
  refine ⟨by simp [headerLine], ?_⟩
  rw [headerLine, List.mem_append, List.mem_cons, not_or, not_or]
  exact ⟨hname, by decide, hvalue⟩

theorem isLine_lengthField (body : Text) : Lines.IsLine 13 (headerLine (lengthField body)) := by
  refine isLine_headerLine (show (13 : UInt8) ∉ ascii "Content-Length" by decide) ?_
  intro hmem
  rcases mem_formatLong hmem with h | h
  · exact absurd h (by decide)
  · exact absurd h (by decide)

theorem isLine_dateLines (date : Option Date) : ∀ l ∈ dateLines date, Lines.IsLine 13 l := by
  cases date with
  | none => simp [dateLines]
  | some date =>
      intro l hl
      obtain rfl := List.mem_singleton.mp hl
      refine isLine_headerLine (show (13 : UInt8) ∉ ascii "Date" by decide) ?_
      intro hmem
      have hchar := List.all_eq_true.mp date.chars _ hmem
      exact absurd hchar (by decide)

/-- The headers that the code writes of its own. -/
def ownHeaders (date : Option Date) (body : Text) : List Field :=
  (date.map fun d => (ascii "Date", d.text)).toList ++ [lengthField body]

theorem ownHeaders_lines (date : Option Date) (body : Text) :
    dateLines date ++ [headerLine (lengthField body)] = (ownHeaders date body).map headerLine := by
  cases date with
  | none => rfl
  | some date => rfl

theorem ownHeaders_survive (date : Option Date) (body : Text) :
    ∀ f ∈ ownHeaders date body, Survives f := by
  have hlength : Survives (lengthField body) := by
    have hname : ascii "Content-Length" ≠ [] ∧ (ascii "Content-Length").all isTokenChar = true := by
      decide
    have hchars : ∀ c ∈ formatLong (asInt64 body.length),
        isFieldChar c = true ∧ isBlank c = false := by
      intro c hc
      rw [isFieldChar, isBlank]
      rcases mem_formatLong hc with rfl | hdigit
      · decide
      · have h9 : c ≠ 9 := fun heq => absurd (heq ▸ hdigit.1) (by decide)
        have h32 : c ≠ 32 := fun heq => absurd (heq ▸ hdigit.1) (by decide)
        have h127 : c ≠ 127 := fun heq => absurd (heq ▸ hdigit.2) (by decide)
        have hle : 32 ≤ c := UInt8.le_trans (by decide) hdigit.1
        simp [h9, h32, h127, hle]
    exact ⟨⟨hname.1, hname.2, List.all_eq_true.mpr fun c hc => (hchars c hc).1⟩,
      trim_of_not_blank fun c hc => (hchars c hc).2⟩
  cases date with
  | none => simpa [ownHeaders] using hlength
  | some date =>
      have hname : ascii "Date" ≠ [] ∧ (ascii "Date").all isTokenChar = true := by decide
      have hdate : Survives (ascii "Date", date.text) :=
        ⟨⟨hname.1, hname.2, date.chars⟩, date.trimmed⟩
      simpa [ownHeaders] using ⟨hdate, hlength⟩

/-- **What is read of a response**: the status, the headers if all of them can be read, and the
body that the length says. -/
theorem parseResponse_wire {e : ℕ × Text} (he : e ∈ httpStatusCode) (date : Option Date)
    (body : Text) {headers : List Field}
    (hlines : ∀ f ∈ headers, (13 : UInt8) ∉ f.1 ∧ (13 : UInt8) ∉ f.2) (rest : Text) :
    parseResponse (Lines.block crlf (responseLines e date body headers) ++ rest) =
      (parseFields ((ownHeaders date body ++ headers).map headerLine)).bind fun fields =>
        (bodyLength fields).bind fun n =>
          if n ≤ rest.length then some (⟨e.1, fields, rest.take n⟩, rest.drop n) else none := by
  obtain ⟨hstatus, hbreak⟩ := parseStatusLine_statusLine he
  have hall : ∀ l ∈ responseLines e date body headers, Lines.IsLine 13 l := by
    intro l hl
    rw [responseLines, List.mem_cons, List.mem_append, List.mem_append] at hl
    rcases hl with rfl | (hl | hl) | hl
    · exact ⟨by simp [statusLine], hbreak⟩
    · exact isLine_dateLines date l hl
    · exact List.mem_singleton.mp hl ▸ isLine_lengthField body
    · obtain ⟨f, hf, rfl⟩ := List.mem_map.mp hl
      exact isLine_headerLine (hlines f hf).1 (hlines f hf).2
  have hfuel : (responseLines e date body headers).length <
      (Lines.block crlf (responseLines e date body headers) ++ rest).length + 1 := by
    have hlt := Lines.length_lt_block 13 [10] (responseLines e date body headers)
    rw [List.length_append, crlf]
    omega
  have hsplit : Lines.splitBlock 13 10
      ((Lines.block crlf (responseLines e date body headers) ++ rest).length + 1)
      (Lines.block crlf (responseLines e date body headers) ++ rest) =
        some (responseLines e date body headers, rest) := Lines.splitBlock_block hall hfuel
  have hfields : (responseLines e date body headers).tail =
      (ownHeaders date body ++ headers).map headerLine := by
    rw [responseLines, List.tail_cons, ownHeaders_lines, List.map_append]
  have hhead : (responseLines e date body headers).headD [] = statusLine e := rfl
  simp only [parseResponse, hsplit, Option.bind_eq_bind, Option.bind_some, hhead, hstatus, hfields]
  rfl

/-! ### When a response is read back -/

/-- **Headers in order**: all of them survive, and none is about the framing. -/
structure Clean (headers : List Field) : Prop where
  survive : ∀ f ∈ headers, Survives f
  coding : headers.countP (Field.named (ascii "Transfer-Encoding")) = 0
  length : lengthFields headers = []

/-- The code's own headers give the length of the body, and no other header may. -/
theorem bodyLength_own (date : Option Date) (body : Text) (headers : List Field) (n : ℕ) :
    bodyLength (ownHeaders date body ++ headers) = some n ↔
      headers.countP (Field.named (ascii "Transfer-Encoding")) = 0 ∧ lengthFields headers = [] ∧
        numberOf (formatLong (asInt64 body.length)) = some n := by
  have hcoding : (ownHeaders date body ++ headers).countP
      (Field.named (ascii "Transfer-Encoding")) =
        headers.countP (Field.named (ascii "Transfer-Encoding")) := by
    rw [List.countP_append]
    cases date with
    | none => exact Nat.zero_add _
    | some date => exact Nat.zero_add _
  have hlength : lengthFields (ownHeaders date body ++ headers) =
      lengthField body :: lengthFields headers := by
    rw [lengthFields, List.filter_append]
    cases date with
    | none => rfl
    | some date => rfl
  rw [bodyLength, hcoding, hlength]
  by_cases hzero : headers.countP (Field.named (ascii "Transfer-Encoding")) = 0
  · rw [if_pos hzero]
    cases lengthFields headers with
    | nil => simp [hzero, lengthField]
    | cons f fs => simp
  · rw [if_neg hzero]
    simp [hzero]

/-- **The headers of a response are read back exactly if they are in order.** -/
theorem readBack_block_iff {e : ℕ × Text} (he : e ∈ httpStatusCode) (date : Option Date)
    (body : Text) {headers order : List Field} (hperm : order.Perm headers)
    (hlines : ∀ f ∈ headers, (13 : UInt8) ∉ f.1 ∧ (13 : UInt8) ∉ f.2) :
    ReadBack e.1 headers body (Lines.block crlf (responseLines e date body order) ++ body) ↔
      Clean headers ∧ body.length < 2 ^ 63 := by
  have hread := parseResponse_wire he date body
    (fun f hf => hlines f (hperm.subset hf))
  have hown : (∀ f ∈ headers, Survives f) →
      ∀ f ∈ ownHeaders date body ++ order, Survives f := by
    intro hsurvive f hf
    rcases List.mem_append.mp hf with hf | hf
    · exact ownHeaders_survive date body f hf
    · exact hsurvive f (hperm.subset hf)
  constructor
  · rintro ⟨m, hparse, -, hsub, hlength, -⟩
    have hone := hparse []
    rw [List.append_assoc, hread] at hone
    obtain ⟨fields, hfields, hone⟩ := Option.bind_eq_some_iff.mp hone
    obtain ⟨n, -, hone⟩ := Option.bind_eq_some_iff.mp hone
    obtain rfl : fields = m.fields := by
      split at hone
      · exact congrArg (fun p => p.1.fields) (Option.some.inj hone)
      · cases hone
    have hsurvive : ∀ f ∈ headers, Survives f :=
      fun f hf => survives_of_parseFields hfields f (hsub.subset hf)
    have hall := hown hsurvive
    rw [parseFields_of_survives hall] at hfields
    rw [← Option.some.inj hfields, bodyLength_own] at hlength
    obtain ⟨hcoding, hnone, hnumber⟩ := hlength
    refine ⟨⟨hsurvive, ?_, ?_⟩, (numberOf_formatLong _).mp hnumber⟩
    · rw [← hperm.countP_eq]
      exact hcoding
    · exact List.perm_nil.mp (hnone ▸ (hperm.filter _).symm)
  · rintro ⟨⟨hsurvive, hcoding, hlength⟩, hsize⟩
    have hall := hown hsurvive
    have hframe : bodyLength (ownHeaders date body ++ order) = some body.length := by
      rw [bodyLength_own, hperm.countP_eq]
      refine ⟨hcoding, ?_, (numberOf_formatLong _).mpr hsize⟩
      exact List.perm_nil.mp (hlength ▸ hperm.filter _)
    refine ⟨⟨e.1, ownHeaders date body ++ order, body⟩, ?_, rfl, ?_, hframe, rfl⟩
    · intro behind
      rw [List.append_assoc, hread, parseFields_of_survives hall, Option.bind_some, hframe,
        Option.bind_some, if_pos (by rw [List.length_append]; omega), List.take_left,
        List.drop_left]
    · exact hperm.symm.subperm.trans (List.sublist_append_right _ _).subperm

/-- A bad request has no length. -/
theorem not_readBack_badRequest (headers : List Field) (body : Text) :
    ¬ReadBack 400 headers body (Lines.block crlf [statusLine (400, ascii "Bad Request")]) := by
  rintro ⟨m, hparse, -⟩
  have hnone := hparse []
  rw [List.append_nil, show parseResponse _ = none by decide +kernel] at hnone
  cases hnone

/-- The three entry points. -/
inductive Entry
  | json
  | text
  | html
  deriving DecidableEq, Repr

namespace Entry

/-- The content type of an entry point. -/
def contentType : Entry → Text
  | json => ascii "application/json; charset=utf-8"
  | text => ascii "text/plain; charset=UTF-8"
  | html => ascii "text/html; charset=UTF-8"

/-- The call of an entry point. -/
def call : Entry → HttpResponse → IterationOrder → Option Date → ℤ → Text → HttpResponse
  | json => HttpResponse.json
  | text => HttpResponse.text
  | html => HttpResponse.html

theorem call_eq (entry : Entry) : entry.call = HttpResponse.respond entry.contentType := by
  cases entry with
  | json => rfl
  | text => rfl
  | html => rfl

theorem survives_contentType (entry : Entry) :
    Survives (ascii "Content-Type", entry.contentType) ∧
      (13 : UInt8) ∉ ascii "Content-Type" ∧ (13 : UInt8) ∉ entry.contentType := by
  cases entry with
  | json => decide +kernel
  | text => decide +kernel
  | html => decide +kernel

end Entry

/-- The headers that the response is to carry: the map, with the content type. -/
def HttpResponse.carried (r : HttpResponse) (entry : Entry) : List Field :=
  (r.headers.set (ascii "Content-Type") entry.contentType).entries

/-- The headers that the callers have set, apart from a content type. -/
def HttpResponse.others (r : HttpResponse) : List Field :=
  r.headers.entries.filter fun f => f.1 ≠ ascii "Content-Type"

/-- The content type is in order. -/
theorem HttpResponse.clean_carried (r : HttpResponse) (entry : Entry) :
    Clean (r.carried entry) ↔ Clean r.others := by
  have hentries : r.carried entry = (ascii "Content-Type", entry.contentType) :: r.others := rfl
  have hcoding : (r.carried entry).countP (Field.named (ascii "Transfer-Encoding")) =
      r.others.countP (Field.named (ascii "Transfer-Encoding")) := by
    rw [hentries, List.countP_cons_of_neg]
    exact Bool.false_ne_true
  have hlength : lengthFields (r.carried entry) = lengthFields r.others := by
    rw [hentries, lengthFields, List.filter_cons_of_neg]
    · rfl
    · exact Bool.false_ne_true
  constructor
  · rintro ⟨hsurvive, hc, hl⟩
    refine ⟨fun f hf => hsurvive f ?_, hcoding ▸ hc, hlength ▸ hl⟩
    rw [hentries]
    exact List.mem_cons_of_mem _ hf
  · rintro ⟨hsurvive, hc, hl⟩
    refine ⟨?_, hcoding.trans hc, hlength.trans hl⟩
    rw [hentries]
    exact List.forall_mem_cons.mpr ⟨(entry.survives_contentType).1, hsurvive⟩

/-- **When a response is read back.** For every status of the table, every header map without
line breaks and every body, in whatever order the map is iterated over: exactly if the status
is not 400, the headers are in order, and an `int64_t` holds the length of the body. -/
theorem readBack_iff (r : HttpResponse) (entry : Entry) (it : IterationOrder) (date : Option Date)
    {e : ℕ × Text} (he : e ∈ httpStatusCode) (data : Text)
    (hlines : ∀ f ∈ r.headers.entries, Unbroken f.1 ∧ Unbroken f.2) :
    ReadBack e.1 (r.carried entry) data (entry.call r it date e.1 data).buffer ↔
      e.1 ≠ 400 ∧ Clean r.others ∧ data.length < 2 ^ 63 := by
  have hfind := findStatus_eq he
  rw [entry.call_eq, HttpResponse.respond]
  by_cases hbad : e.1 = 400
  · refine iff_of_false ?_ fun h => h.1 hbad
    rw [makeResponse_of_eq (by simp [hbad]), hbad]
    exact not_readBack_badRequest _ _
  · have hlines' : ∀ f ∈ r.carried entry, (13 : UInt8) ∉ f.1 ∧ (13 : UInt8) ∉ f.2 := by
      refine List.forall_mem_cons.mpr ⟨(entry.survives_contentType).2, fun f hf => ?_⟩
      have hf' := hlines f (List.mem_of_mem_filter hf)
      exact ⟨hf'.1.1, hf'.2.1⟩
    have hblock := readBack_block_iff he date data (it.perm (r.carried entry)) hlines'
    rw [r.clean_carried] at hblock
    have hbad' : (e.1 : ℤ) ≠ 400 := by exact_mod_cast hbad
    rw [makeResponse_of_ne hbad']
    dsimp only
    rw [hfind, List.nil_append]
    exact hblock.trans (and_iff_right hbad).symm

/-- The iteration order of a list. -/
def listOrder : IterationOrder := ⟨id, fun l => List.Perm.refl l⟩

/-- A response without headers of its own. -/
def plainResponse : HttpResponse := ⟨-1, ⟨[], List.nodup_nil⟩, []⟩

/-- A page that is not found is read back. -/
theorem readBack_notFound :
    ReadBack 404 (plainResponse.carried .text) (ascii "no such page")
      (Entry.text.call plainResponse listOrder none 404 (ascii "no such page")).buffer :=
  (readBack_iff plainResponse .text listOrder none (e := (404, ascii "Not Found"))
    (by decide +kernel) (ascii "no such page") (by simp [plainResponse])).mpr
    ⟨by decide, ⟨by simp [plainResponse, HttpResponse.others], rfl, rfl⟩, by decide⟩

/-- **A bad request loses its body**, its headers and its length. -/
theorem badRequest_text :
    (Entry.text.call plainResponse listOrder none 400 (ascii "no id")).buffer =
        ascii "HTTP/1.1 400 Bad Request" ++ crlf ++ crlf ∧
      ¬ReadBack 400 (plainResponse.carried .text) (ascii "no id")
        (Entry.text.call plainResponse listOrder none 400 (ascii "no id")).buffer := by
  have hbuffer : (Entry.text.call plainResponse listOrder none 400 (ascii "no id")).buffer =
      Lines.block crlf [statusLine (400, ascii "Bad Request")] :=
    makeResponse_of_eq rfl listOrder none _
  rw [hbuffer]
  exact ⟨by decide +kernel, not_readBack_badRequest _ _⟩

end ArchNet.Http

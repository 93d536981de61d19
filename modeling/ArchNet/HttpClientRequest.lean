import ArchNet.HttpUtils
import ArchNet.Lines
import Mathlib.Data.List.Perm.Subperm

/-!
# Requests of the HTTP Client

`CoinClient::Session::Post`, `Put`, `Patch` and `Delete`, `send_with_content_provider`, `send`,
`handle_request` and `write_request` of `http/coin_client.cpp`, without compression.

The body takes a different way in each half of the code. `Post`, `Put` and `Patch` pass it as a C
string, of which `req.body.assign(body, content_length)` takes the text *behind* the position
`content_length`; `write_request` then passes `req.body.size() <= 0` as the number of bytes to
send.

## Conventions

* `Body.behind` is what memory holds behind the body, up to the next NUL: nothing for a
  `std::string`, anything for a pointer and a length.
* A call of `send` on the stream is answered by the socket: it fails, or leaves a number of bytes
  behind.
* A message is looked at lexically: the grammar of the target is not.

## Main definitions

* `Client.prepare`, `Client.writeRequest`, `Client.send`, `post`, `put`, `patch`, `delete`: the
  code.
* `Message`, `Message.WellFormed`: an HTTP/1.1 request.
* `Client.requested`: the header fields asked for, by the caller and by the client's settings.
* `Delivered`: the bytes are the request that was asked for.
* `Deliverable`: the condition.

## Main results

* `prepare_perm`: the prepared headers are the fields asked for, and fields of the code's own.
* `Delivered.spec`: the bytes of a delivered request are the whole buffer, and no body.
* `request_delivered_iff`: **a request that is written successfully is the one asked for exactly
  if there is no body to send, and the head is deliverable**.
-/

open Bytes

namespace ArchNet.HttpClient

open Routing (Text cstr cstr_eq_self)

/-! ### The code -/

/-- What `send` on the stream does: it fails, or takes all but the last bytes. -/
inductive Answer
  | error
  | left (n : ℕ)
  deriving Repr, DecidableEq

/-- The bytes that the stream takes. -/
def Answer.taken (a : Answer) (data : Text) : Text :=
  match a with
  | .error => []
  | .left n => data.take (data.length - n)

/-- What `send` returns. -/
def Answer.value (a : Answer) (data : Text) : ℤ :=
  match a with
  | .error => -1
  | .left _ => (a.taken data).length

/-- The errors of `Error` that occur before a response is read. -/
inductive Error
  | connection
  | write
  deriving Repr, DecidableEq

/-- The members of `Request` that are written. -/
structure Request where
  method : Text
  path : Text
  headers : Headers
  body : Text

/-- The settings of `CoinClient`. -/
structure Client where
  host : Text
  port : ℤ
  hostAndPort : Text
  defaultHeaders : Headers := .empty lowered
  basicAuthUsername : Text := []
  basicAuthPassword : Text := []
  bearerTokenAuthToken : Text := []
  keepAlive : Bool := false
  urlEncode : Bool := true

/-- What a request has come to: its headers, the bytes on the wire, and the error, if there is
one. -/
structure Attempt where
  error : Option Error := none
  headers : Headers
  wire : Text

def crlf : Text := [13, 10]

/-- `Buffer::write_format`: `snprintf` fails where its result is no `int`. -/
def writeFormat (s : Text) : Text := if s.length < 2 ^ 31 then s else []

/-- The methods for which an empty body has a length. -/
def sendsLength (method : Text) : Bool :=
  method == ascii "POST" || method == ascii "PUT" || method == ascii "PATCH"

namespace Client

variable (c : Client)

/-- The default for `Host`; `is_ssl` is always false. -/
def hostValue : Text := if c.port = 80 then c.host else c.hostAndPort

/-- The additional headers of `write_request` for a body. -/
def prepareBody (req : Request) (headers : Headers) : Headers :=
  if req.body = [] then
    if sendsLength req.method then headers.emplace (ascii "Content-Length") (ascii "0")
    else headers
  else
    supply (supply headers (ascii "Content-Type") (ascii "text/plain")) (ascii "Content-Length")
      (decimal req.body.length)

/-- The additional headers of `write_request` for the authentications. -/
def prepareAuthorization (headers : Headers) : Headers :=
  let headers :=
    if c.basicAuthPassword ≠ [] ∨ c.basicAuthUsername ≠ [] then
      let field := makeBasicAuthenticationHeader c.basicAuthUsername c.basicAuthPassword
      supply headers field.1 field.2
    else headers
  if c.bearerTokenAuthToken ≠ [] then
    let field := makeBearerTokenAuthenticationHeader c.bearerTokenAuthToken
    supply headers field.1 field.2
  else headers

/-- The additional headers of `write_request`. -/
def prepare (req : Request) (closeConnection : Bool) : Headers :=
  let headers :=
    if closeConnection then supply req.headers (ascii "Connection") (ascii "close")
    else req.headers
  let headers := supply headers (ascii "Host") c.hostValue
  let headers := supply headers (ascii "Accept") (ascii "*/*")
  let headers := supply headers (ascii "User-Agent") (ascii "coin_client/1.0")
  c.prepareAuthorization (prepareBody req headers)

/-- The path as it is written. -/
def target (path : Text) : Text := cstr (if c.urlEncode then encodeUrl path else path)

end Client

/-- `"%s: %s"`, up to the line break. -/
def fieldLine (f : Field) : Text := cstr f.1 ++ ascii ": " ++ cstr f.2

/-- `"%s %s HTTP/1.1"`, up to the line break. -/
def requestLine (method target : Text) : Text :=
  cstr method ++ ascii " " ++ target ++ ascii " HTTP/1.1"

namespace Client

variable (c : Client)

/-- The request line and the headers. -/
def head (req : Request) (headers : Headers) : Text :=
  writeFormat (requestLine req.method (c.target req.path) ++ crlf) ++
    (headers.items.flatMap fun f => writeFormat (fieldLine f ++ crlf)) ++ crlf

/-- `write_request`; the answers are those of the two calls of `send`. -/
def writeRequest (req : Request) (closeConnection : Bool) (first second : Answer) : Attempt :=
  let headers := c.prepare req closeConnection
  let buffer := c.head req headers
  let size := if req.body.length ≤ 0 then 1 else 0
  if first.value buffer ≤ 0 then { error := some .write, headers, wire := first.taken buffer }
  else if req.body ≠ [] ∧ second.value (req.body.take size) ≠ 0 then
    { error := some .write, headers,
      wire := first.taken buffer ++ second.taken (req.body.take size) }
  else
    { headers,
      wire := first.taken buffer ++
        if req.body ≠ [] then second.taken (req.body.take size) else [] }

/-- `send` and `handle_request`, up to the response. -/
def send (req : Request) (first second : Answer) : Attempt :=
  let headers := c.defaultHeaders.items.foldl (fun hs f => supply hs f.1 f.2) req.headers
  if req.path = [] then { error := some .connection, headers, wire := [] }
  else c.writeRequest { req with headers } (!c.keepAlive) first second

/-- A content type that was given comes before all defaults. -/
def withContentType (headers : Headers) (contentType : Text) : Headers :=
  if contentType ≠ [] then headers.emplace (ascii "Content-Type") contentType else headers

/-- `send_with_content_provider`: `assign(body, content_length)` takes a position, and throws
`std::out_of_range` if it is not one of the text. -/
def sendWithContentProvider (method path : Text) (headers : Headers) (body : Text)
    (contentLength : ℕ) (contentType : Text) (first second : Answer) : Option Attempt :=
  if body.length < contentLength then none
  else some (c.send ⟨method, path, withContentType headers contentType, body.drop contentLength⟩
    first second)

end Client

/-- A body in memory: its bytes, and what stands behind them up to the next NUL. -/
structure Body where
  bytes : Text
  behind : Text := []
  deriving Repr, DecidableEq

/-- The `std::string` made of a pointer to the body. -/
def Body.string (body : Body) : Text := cstr (body.bytes ++ body.behind)

section Session

variable (c : Client) (path : Text) (headers : Headers) (body : Body) (contentType : Text)
  (first second : Answer)

/-- `Session::Post`. -/
def post : Option Attempt :=
  c.sendWithContentProvider (ascii "POST") path headers body.string body.bytes.length contentType
    first second

/-- `Session::Put`. -/
def put : Option Attempt :=
  c.sendWithContentProvider (ascii "PUT") path headers body.string body.bytes.length contentType
    first second

/-- `Session::Patch`. -/
def patch : Option Attempt :=
  c.sendWithContentProvider (ascii "PATCH") path headers body.string body.bytes.length contentType
    first second

/-- `Session::Delete`: `assign(body, content_length)` with a pointer takes the bytes. -/
def delete : Option Attempt :=
  some (c.send ⟨ascii "DELETE", path, Client.withContentType headers contentType, body.bytes⟩ first
    second)

/-- The four methods with a body. -/
inductive Verb
  | post
  | put
  | patch
  | delete
  deriving Repr, DecidableEq

def Verb.name : Verb → Text
  | post => ascii "POST"
  | put => ascii "PUT"
  | patch => ascii "PATCH"
  | delete => ascii "DELETE"

def Verb.call : Verb → Option Attempt
  | .post => HttpClient.post c path headers body contentType first second
  | .put => HttpClient.put c path headers body contentType first second
  | .patch => HttpClient.patch c path headers body contentType first second
  | .delete => HttpClient.delete c path headers body contentType first second

end Session

/-! ### Messages -/

/-- A character of a token: a letter, a digit, or one of the signs that HTTP allows in a name. -/
def isTokenChar (c : UInt8) : Bool :=
  decide (48 ≤ c ∧ c ≤ 57) || decide (65 ≤ c ∧ c ≤ 90) || decide (97 ≤ c ∧ c ≤ 122) ||
    [33, 35, 36, 37, 38, 39, 42, 43, 45, 46, 94, 95, 96, 124, 126].contains c

/-- A character of a field value: no control character but the tabulator. -/
def isFieldChar (c : UInt8) : Bool := c == 9 || decide (32 ≤ c) && c != 127

/-- A character of a request target. -/
def isVisible (c : UInt8) : Bool := decide (33 ≤ c ∧ c ≤ 126)

/-- **A well-formed field.** -/
structure Field.Ok (f : Field) : Prop where
  name_ne_nil : f.1 ≠ []
  name : f.1.all isTokenChar = true
  value : f.2.all isFieldChar = true

instance (f : Field) : Decidable f.Ok :=
  decidable_of_iff (f.1 ≠ [] ∧ f.1.all isTokenChar = true ∧ f.2.all isFieldChar = true)
    ⟨fun h => ⟨h.1, h.2.1, h.2.2⟩, fun h => ⟨h.1, h.2, h.3⟩⟩

/-- **A well-formed target.** -/
structure TargetOk (target : Text) : Prop where
  ne_nil : target ≠ []
  visible : target.all isVisible = true

/-- The number in a value, without the blanks around it. -/
def numberOf (value : Text) : Option ℕ :=
  let blank := fun c : UInt8 => c == 32 || c == 9
  let digits := ((value.dropWhile blank).reverse.dropWhile blank).reverse
  if digits ≠ [] ∧ digits.all (fun c => decide (48 ≤ c ∧ c ≤ 57)) then
    some (decimalVal digits)
  else none

/-- The fields that say how long the body is. -/
def lengthFields (fields : List Field) : List Field :=
  fields.filter (Field.named (ascii "Content-Length"))

/-- A request. -/
structure Message where
  method : Text
  target : Text
  fields : List Field
  body : Text
  deriving Repr, DecidableEq

namespace Message

/-- A request as a text. -/
def bytes (m : Message) : Text :=
  Lines.block crlf (requestLine m.method m.target :: m.fields.map fieldLine) ++ m.body

/-- **A well-formed HTTP/1.1 request**: target and fields are; there is one host and no transfer
coding, and the body is as long as the one length that is given, or empty if none is. -/
structure WellFormed (m : Message) : Prop where
  target : TargetOk m.target
  fields : ∀ f ∈ m.fields, f.Ok
  host : m.fields.countP (Field.named (ascii "Host")) = 1
  coding : m.fields.countP (Field.named (ascii "Transfer-Encoding")) = 0
  framing : lengthFields m.fields = [] ∧ m.body = [] ∨
    ∃ f, lengthFields m.fields = [f] ∧ numberOf f.2 = some m.body.length

end Message

/-! ### What was asked for -/

/-- A field, unless there is one of its name. -/
def addField (fields : List Field) (f : Field) : List Field :=
  if fields.any (Field.named f.1) then fields else fields ++ [f]

/-- The fields of the authentications that are set. -/
def Client.addAuthorization (c : Client) (fields : List Field) : List Field :=
  let fields :=
    if c.basicAuthPassword ≠ [] ∨ c.basicAuthUsername ≠ [] then
      addField fields (makeBasicAuthenticationHeader c.basicAuthUsername c.basicAuthPassword)
    else fields
  if c.bearerTokenAuthToken ≠ [] then
    addField fields (makeBearerTokenAuthenticationHeader c.bearerTokenAuthToken)
  else fields

/-- **The fields asked for**: those of the caller with the content type, and where these have none
of the name, the client's default headers, its host and its authentication. -/
def Client.requested (c : Client) (headers : Headers) (contentType : Text) : List Field :=
  let fields := headers.items ++
    if contentType ≠ [] then [(ascii "Content-Type", contentType)] else []
  let fields := c.defaultHeaders.items.foldl addField fields
  c.addAuthorization (addField fields (ascii "Host", c.hostValue))

section Delivery

variable (c : Client) (verb : Verb) (path : Text) (headers : Headers) (body : Body)
  (contentType : Text)

/-- **Delivered**: the bytes are one well-formed request with the method, the target, the fields
asked for, a length if the caller gave none, and the body. -/
def Delivered (wire : Text) : Prop :=
  ∃ m : Message, m.bytes = wire ∧ m.WellFormed ∧ m.method = verb.name ∧
    m.target = c.target path ∧ (c.requested headers contentType).Subperm m.fields ∧
      (lengthFields headers.items = [] → lengthFields m.fields ≠ []) ∧ m.body = body.bytes

/-- A line that `snprintf` can format. -/
def Short (line : Text) : Prop := (line ++ crlf).length < 2 ^ 31

instance (line : Text) : Decidable (Short line) := inferInstanceAs (Decidable (_ < _))

/-- **Deliverable**: there is no body, the stream takes the whole head, and the head is in
order. Where the code writes a length of zero, none may be asked for, and where it does not, one
of zero must be. -/
structure Deliverable (first : Answer) : Prop where
  empty : body.bytes = []
  stream : first = .left 0
  target : TargetOk (c.target path)
  line : Short (requestLine verb.name (c.target path))
  fields : ∀ f ∈ c.requested headers contentType, f.Ok ∧ Short (fieldLine f)
  host : (c.requested headers contentType).countP (Field.named (ascii "Host")) = 1
  coding : (c.requested headers contentType).countP (Field.named (ascii "Transfer-Encoding")) = 0
  length :
    if verb ≠ .delete ∧ cstr body.behind = [] then
      lengthFields (c.requested headers contentType) = []
    else
      ∃ f, lengthFields (c.requested headers contentType) = [f] ∧ numberOf f.2 = some 0

end Delivery

/-! ### The prepared headers -/

section Prepare

variable {hs : Headers} {l ex : List Field} {k v : Text}

/-- `has_header` looks at the fields in any order. -/
theorem hasHeader_of_perm (h : hs.items.Perm l) : hasHeader hs k = l.any (Field.named k) := by
  rw [Bool.eq_iff_iff, hasHeader_iff, List.any_eq_true]
  exact exists_congr fun f => and_congr_left fun _ => h.mem_iff

/-- `emplace` adds a field. -/
theorem emplace_perm (h : hs.items.Perm (l ++ ex)) :
    (hs.emplace k v).items.Perm (l ++ ((k, v) :: ex)) :=
  (Multimap.items_emplace_perm.trans (h.cons (k, v))).trans List.perm_middle.symm

/-- A field that is asked for. -/
theorem supply_perm_requested (h : hs.items.Perm (l ++ ex))
    (hex : ∀ e ∈ ex, Field.named k e = false) :
    (supply hs k v).items.Perm (addField l (k, v) ++ ex) := by
  have hnone : ex.any (Field.named k) = false := by
    simpa only [List.any_eq_false, Bool.not_eq_true] using hex
  have hany : hasHeader hs k = l.any (Field.named k) := by
    rw [hasHeader_of_perm h, List.any_append, hnone, Bool.or_false]
  rw [supply, addField, hany]
  split_ifs
  · exact h
  · rw [List.append_assoc]
    exact emplace_perm h

/-- The fields that the code adds of its own, apart from the length. -/
def ownFields : List Field :=
  [(ascii "Connection", ascii "close"), (ascii "Accept", ascii "*/*"),
    (ascii "User-Agent", ascii "coin_client/1.0"), (ascii "Content-Type", ascii "text/plain")]

/-- A field of the client's own goes to the extra ones, or is not added. -/
theorem supply_perm_own (h : hs.items.Perm (l ++ ex)) (hex : ∀ e ∈ ex, e ∈ ownFields)
    (hf : (k, v) ∈ ownFields) :
    ∃ ex', (∀ e ∈ ex', e ∈ ownFields) ∧ (supply hs k v).items.Perm (l ++ ex') := by
  rw [supply]
  split_ifs
  · exact ⟨ex, hex, h⟩
  · exact ⟨(k, v) :: ex, List.forall_mem_cons.mpr ⟨hf, hex⟩, emplace_perm h⟩

/-- The default fields are added where they are not there. -/
theorem defaults_perm (defaults : List Field) (h : hs.items.Perm l) :
    (defaults.foldl (fun hs f => supply hs f.1 f.2) hs).items.Perm
      (defaults.foldl addField l) := by
  induction defaults generalizing hs l with
  | nil => exact h
  | cons f defaults ih =>
      have hstep := @supply_perm_requested hs l [] f.1 f.2 (by rwa [List.append_nil]) (by simp)
      rw [List.append_nil] at hstep
      exact ih hstep

/-- The length that the code adds. -/
def ownLength (method body : Text) (fields : List Field) : List Field :=
  if body = [] then if sendsLength method then [(ascii "Content-Length", ascii "0")] else []
  else if lengthFields fields = [] then [(ascii "Content-Length", decimal body.length)] else []

/-- A field that is no `Content-Length` adds none. -/
theorem lengthFields_addField {f : Field} (h : Field.named (ascii "Content-Length") f = false) :
    lengthFields (addField l f) = lengthFields l := by
  rw [addField]
  split_ifs
  · rfl
  · rw [lengthFields, List.filter_append, List.filter_singleton, h]
    exact List.append_nil _

/-- There is no length exactly if no field is named `Content-Length`. -/
theorem lengthFields_eq_nil :
    lengthFields l = [] ↔ l.any (Field.named (ascii "Content-Length")) = false := by
  simp [lengthFields]

/-- A field that does not decide about the host or the authorization. -/
def Other (f : Field) : Prop :=
  Field.named (ascii "Host") f = false ∧ Field.named (ascii "Authorization") f = false

/-- The client's own fields decide neither about the host nor about the authorization. -/
theorem other_of_mem_ownFields : ∀ e ∈ ownFields, Other e := by
  unfold Other
  decide

/-- A length decides neither about the host nor about the authorization. -/
theorem other_length (value : Text) : Other (ascii "Content-Length", value) :=
  ⟨rfl, rfl⟩

/-- What the body adds: own fields, and the length that belongs to it. -/
theorem prepareBody_perm {req : Request} (h : hs.items.Perm (l ++ ex))
    (hex : ∀ e ∈ ex, e ∈ ownFields) :
    ∃ own, (∀ e ∈ own, e ∈ ownFields) ∧ (Client.prepareBody req hs).items.Perm
      (l ++ (own ++ ownLength req.method req.body l)) := by
  have hlength : ∀ {hs : Headers} {own : List Field} {v : Text}, hs.items.Perm (l ++ own) →
      (hs.emplace (ascii "Content-Length") v).items.Perm
        (l ++ (own ++ [(ascii "Content-Length", v)])) := fun h =>
    (emplace_perm h).trans ((List.perm_append_singleton _ _).symm.append_left l)
  rw [Client.prepareBody, ownLength]
  by_cases hbody : req.body = []
  · rw [if_pos hbody, if_pos hbody]
    split_ifs
    · exact ⟨ex, hex, hlength h⟩
    · exact ⟨ex, hex, by rwa [List.append_nil]⟩
  · rw [if_neg hbody, if_neg hbody]
    obtain ⟨own, hmem, hperm⟩ := @supply_perm_own hs l ex (ascii "Content-Type")
      (ascii "text/plain") h hex (by decide)
    have hnone : own.any (Field.named (ascii "Content-Length")) = false := by
      rw [List.any_eq_false]
      intro e he
      have hnot : ∀ e ∈ ownFields, ¬ Field.named (ascii "Content-Length") e = true := by decide
      exact hnot e (hmem e he)
    refine ⟨own, hmem, ?_⟩
    rw [supply, hasHeader_of_perm hperm, List.any_append, hnone, Bool.or_false]
    by_cases hgiven : lengthFields l = []
    · rw [if_pos hgiven, lengthFields_eq_nil.mp hgiven]
      exact hlength hperm
    · rw [lengthFields_eq_nil, Bool.not_eq_false] at hgiven
      rw [if_pos hgiven, if_neg (by rw [lengthFields_eq_nil, hgiven]; decide), List.append_nil]
      exact hperm

/-- What the credentials add. -/
theorem prepareAuthorization_perm (c : Client) (h : hs.items.Perm (l ++ ex))
    (hex : ∀ e ∈ ex, Other e) :
    (c.prepareAuthorization hs).items.Perm (c.addAuthorization l ++ ex) := by
  have hnot : ∀ e ∈ ex, Field.named (ascii "Authorization") e = false := fun e he => (hex e he).2
  rw [Client.prepareAuthorization, Client.addAuthorization]
  by_cases hbasic : c.basicAuthPassword ≠ [] ∨ c.basicAuthUsername ≠ []
  · have hperm := supply_perm_requested (k := ascii "Authorization")
      (v := (makeBasicAuthenticationHeader c.basicAuthUsername c.basicAuthPassword).2) h hnot
    rw [if_pos hbasic, if_pos hbasic]
    split_ifs
    · exact supply_perm_requested hperm hnot
    · exact hperm
  · rw [if_neg hbasic, if_neg hbasic]
    split_ifs
    · exact supply_perm_requested h hnot
    · exact h

/-- Credentials add no length. -/
theorem lengthFields_addAuthorization (c : Client) :
    lengthFields (c.addAuthorization l) = lengthFields l := by
  have hadd : ∀ (l : List Field) (v : Text),
      lengthFields (addField l (ascii "Authorization", v)) = lengthFields l := fun l v =>
    lengthFields_addField rfl
  rw [Client.addAuthorization]
  by_cases hbasic : c.basicAuthPassword ≠ [] ∨ c.basicAuthUsername ≠ []
  · rw [if_pos hbasic]
    split_ifs
    · exact (hadd _ _).trans (hadd _ _)
    · exact hadd _ _
  · rw [if_neg hbasic]
    split_ifs
    · exact hadd _ _
    · rfl

/-- The length of the body is a `Content-Length`. -/
theorem eq_of_mem_ownLength {method body : Text} {fields : List Field} {e : Field}
    (he : e ∈ ownLength method body fields) : ∃ v, e = (ascii "Content-Length", v) := by
  rw [ownLength] at he
  split_ifs at he
  · exact ⟨_, List.mem_singleton.mp he⟩
  · cases he
  · exact ⟨_, List.mem_singleton.mp he⟩
  · cases he

/-- **The prepared headers** are the fields asked for, some of the code's own, and the length that
it adds. -/
theorem prepare_perm (c : Client) (headers : Headers) (contentType method path body : Text)
    (closeConnection : Bool) :
    ∃ own, (∀ e ∈ own, e ∈ ownFields) ∧
      (c.prepare ⟨method, path, c.defaultHeaders.items.foldl (fun hs f => supply hs f.1 f.2)
        (Client.withContentType headers contentType), body⟩ closeConnection).items.Perm
          (c.requested headers contentType ++
            (own ++ ownLength method body (c.requested headers contentType))) := by
  have hgiven : (Client.withContentType headers contentType).items.Perm
      (headers.items ++
        if contentType ≠ [] then [(ascii "Content-Type", contentType)] else []) := by
    rw [Client.withContentType]
    split_ifs
    · exact Multimap.items_emplace_perm.trans (List.perm_append_singleton _ _).symm
    · rw [List.append_nil]
  have hdefaults := defaults_perm c.defaultHeaders.items hgiven
  generalize hl : c.defaultHeaders.items.foldl addField _ = l at hdefaults
  have hrequested : c.requested headers contentType =
      c.addAuthorization (addField l (ascii "Host", c.hostValue)) := by
    rw [Client.requested, ← hl]
  generalize c.defaultHeaders.items.foldl (fun hs f => supply hs f.1 f.2) _ = hs₀ at hdefaults ⊢
  have hconnection : ∃ ex, (∀ e ∈ ex, e ∈ ownFields) ∧
      (if closeConnection then supply hs₀ (ascii "Connection") (ascii "close")
        else hs₀).items.Perm (l ++ ex) := by
    split_ifs
    · exact @supply_perm_own hs₀ l [] _ _ (by rwa [List.append_nil]) (by simp) (by decide)
    · exact ⟨[], by simp, by rwa [List.append_nil]⟩
  obtain ⟨ex₁, hex₁, h₁⟩ := hconnection
  have hhost := @supply_perm_requested _ l ex₁ (ascii "Host") c.hostValue h₁ fun e he =>
    (other_of_mem_ownFields e (hex₁ e he)).1
  obtain ⟨ex₂, hex₂, h₂⟩ := supply_perm_own (k := ascii "Accept") (v := ascii "*/*") hhost hex₁
    (by decide)
  obtain ⟨ex₃, hex₃, h₃⟩ := supply_perm_own (k := ascii "User-Agent")
    (v := ascii "coin_client/1.0") h₂ hex₂ (by decide)
  obtain ⟨own, hown, h₄⟩ := @prepareBody_perm _ _ _ ⟨method, path, hs₀, body⟩ h₃ hex₃
  have hlength : ownLength method body (addField l (ascii "Host", c.hostValue)) =
      ownLength method body (c.requested headers contentType) := by
    rw [ownLength, ownLength, hrequested, lengthFields_addAuthorization]
  refine ⟨own, hown, ?_⟩
  rw [← hlength, hrequested]
  refine prepareAuthorization_perm c h₄ fun e he => ?_
  rcases List.mem_append.mp he with he | he
  · exact other_of_mem_ownFields e (hown e he)
  · obtain ⟨v, rfl⟩ := eq_of_mem_ownLength he
    exact other_length v

end Prepare

/-! ### The head as a block of lines -/

section Head

variable {f g : Field} {s t : Text}

/-- A line is written as a whole or not at all. -/
theorem writeFormat_line (line : Text) :
    writeFormat (line ++ crlf) = if Short line then line ++ crlf else [] := rfl

/-- The head is the block of the lines that can be formatted. -/
theorem head_eq (c : Client) (req : Request) (headers : Headers) :
    c.head req headers = Lines.block crlf
      ((requestLine req.method (c.target req.path) :: headers.items.map fieldLine).filter
        fun line => Short line) := by
  have hlines : ∀ lines : List Text, (lines.flatMap fun line => writeFormat (line ++ crlf)) =
      Lines.terminated crlf (lines.filter fun line => Short line) := by
    intro lines
    induction lines with
    | nil => rfl
    | cons line lines ih =>
        rw [List.flatMap_cons, ih, writeFormat_line]
        split_ifs with h
        · rw [List.filter_cons_of_pos (by simpa using h)]
          rfl
        · rw [List.filter_cons_of_neg (by simpa using h)]
          rfl
  rw [Lines.block, ← hlines, List.flatMap_cons, List.flatMap_map]
  rfl

/-- What a character class leaves out does not occur. -/
theorem not_mem_of_all {p : UInt8 → Bool} {c : UInt8} (h : s.all p = true) (hc : p c = false) :
    c ∉ s := fun hmem => by
  rw [List.all_eq_true] at h
  rw [h c hmem] at hc
  cases hc

/-- The line of a well-formed field. -/
theorem Field.Ok.fieldLine_eq (h : f.Ok) : fieldLine f = f.1 ++ 58 :: 32 :: f.2 := by
  rw [fieldLine, cstr_eq_self (not_mem_of_all h.name (by decide)),
    cstr_eq_self (not_mem_of_all h.value (by decide)), List.append_assoc]
  rfl

/-- The line of a well-formed field has no line break. -/
theorem Field.Ok.isLine (h : f.Ok) : Lines.IsLine 13 (fieldLine f) := by
  rw [h.fieldLine_eq]
  refine ⟨by simp, fun hmem => ?_⟩
  rcases List.mem_append.mp hmem with hmem | hmem
  · exact not_mem_of_all h.name (by decide) hmem
  · simp only [List.mem_cons] at hmem
    rcases hmem with hmem | hmem | hmem
    · cases hmem
    · cases hmem
    · exact not_mem_of_all h.value (by decide) hmem

/-- A field is known from its line. -/
theorem Field.Ok.eq (hf : f.Ok) (hg : g.Ok) (h : fieldLine f = fieldLine g) : f = g := by
  rw [hf.fieldLine_eq, hg.fieldLine_eq] at h
  obtain ⟨hname, hrest⟩ := Lines.append_cons_inj (not_mem_of_all hf.name (by decide))
    (not_mem_of_all hg.name (by decide)) h
  exact Prod.ext hname (List.cons.inj hrest).2

/-- Well-formed fields are read back from their lines. -/
theorem fields_eq_of_lines {l l' : List Field} (hl : ∀ f ∈ l, f.Ok) (hl' : ∀ f ∈ l', f.Ok)
    (h : l.map fieldLine = l'.map fieldLine) : l = l' := by
  induction l generalizing l' with
  | nil => exact (List.map_eq_nil_iff.mp h.symm).symm
  | cons f l ih =>
      cases l' with
      | nil => cases h
      | cons g l' =>
          obtain ⟨hline, hlines⟩ := List.cons.inj h
          rw [List.forall_mem_cons] at hl hl'
          rw [hl.1.eq hl'.1 hline, ih hl.2 hl'.2 hlines]

/-- A request line has no line break. -/
theorem requestLine_isLine (verb : Verb) (ht : TargetOk t) :
    Lines.IsLine 13 (requestLine verb.name t) := by
  have hname : ∀ verb : Verb, 13 ∉ cstr verb.name ++ ascii " " := by
    intro verb
    cases verb <;> decide
  refine ⟨by simp [requestLine, ascii], fun hmem => ?_⟩
  rw [requestLine, List.mem_append, List.mem_append] at hmem
  rcases hmem with (hmem | hmem) | hmem
  · exact hname verb hmem
  · exact not_mem_of_all ht.visible (by decide) hmem
  · revert hmem
    decide

/-- The client's own fields are well formed and short. -/
theorem ok_of_mem_ownFields : ∀ e ∈ ownFields, e.Ok ∧ Short (fieldLine e) := by decide

/-- A length is a well-formed field. -/
theorem ok_length (n : ℕ) : Field.Ok (ascii "Content-Length", decimal n) where
  name_ne_nil := (by decide : ascii "Content-Length" ≠ [])
  name := (by decide : (ascii "Content-Length").all isTokenChar = true)
  value := by
    rw [List.all_eq_true]
    intro c hc
    obtain ⟨hlow, hhigh⟩ := digit_of_mem_decimal hc
    have h32 : (32 : UInt8) ≤ c := UInt8.le_trans (by decide : (32 : UInt8) ≤ 48) hlow
    have h127 : c ≠ 127 := fun heq => absurd (heq ▸ hhigh) (by decide)
    simp [isFieldChar, h32, h127]

/-- The length of the body is a well-formed field. -/
theorem ok_of_mem_ownLength {method body : Text} {fields : List Field} {e : Field}
    (he : e ∈ ownLength method body fields) : e.Ok := by
  rw [ownLength] at he
  split_ifs at he
  · rw [List.mem_singleton.mp he]
    decide
  · cases he
  · rw [List.mem_singleton.mp he]
    exact ok_length body.length
  · cases he

end Head

/-! ### What is on the wire -/

section Wire

variable {c : Client} {verb : Verb} {path : Text} {headers : Headers} {body : Body}
  {contentType : Text} {first second : Answer} {a : Attempt}

/-- The body of the request that is written. -/
def Verb.requestBody (verb : Verb) (body : Body) : Text :=
  if verb = .delete then body.bytes else body.string.drop body.bytes.length

/-- The headers that are written. -/
def Verb.requestHeaders (c : Client) (verb : Verb) (path : Text) (headers : Headers) (body : Body)
    (contentType : Text) : Headers :=
  c.prepare ⟨verb.name, path, c.defaultHeaders.items.foldl (fun hs f => supply hs f.1 f.2)
    (Client.withContentType headers contentType), verb.requestBody body⟩ (!c.keepAlive)

/-- The lines of the head that are written. -/
def Verb.lines (c : Client) (verb : Verb) (path : Text) (headers : Headers) (body : Body)
    (contentType : Text) : List Text :=
  (requestLine verb.name (c.target path) ::
    (verb.requestHeaders c path headers body contentType).items.map fieldLine).filter
      fun line => Short line

theorem taken_nil (answer : Answer) : answer.taken [] = [] := by
  cases answer with
  | error => rfl
  | left n => exact List.take_nil

/-- **What a successful `write_request` has written**: the head, but for what the stream has left
of it, and never a byte of the body. -/
theorem writeRequest_sent {req : Request} {close : Bool}
    (h : (c.writeRequest req close first second).error = none) :
    ∃ n rest, first = .left n ∧ rest.length = n ∧
      (c.writeRequest req close first second).wire ++ rest = c.head req (c.prepare req close) := by
  rw [Client.writeRequest] at h ⊢
  generalize c.head req (c.prepare req close) = buffer at h ⊢
  by_cases hfirst : first.value buffer ≤ 0
  · rw [if_pos hfirst] at h
    cases h
  rw [if_neg hfirst] at h ⊢
  by_cases hsecond : req.body ≠ [] ∧
      second.value (req.body.take (if req.body.length ≤ 0 then 1 else 0)) ≠ 0
  · rw [if_pos hsecond] at h
    cases h
  rw [if_neg hsecond]
  have hnothing : (if req.body ≠ [] then
      second.taken (req.body.take (if req.body.length ≤ 0 then 1 else 0)) else []) = [] := by
    by_cases hbody : req.body = []
    · exact if_neg (not_not.mpr hbody)
    · rw [if_pos hbody, if_neg (by simpa using hbody), List.take_zero, taken_nil]
  dsimp only
  rw [hnothing, List.append_nil]
  cases first with
  | error => exact absurd (by decide : (-1 : ℤ) ≤ 0) hfirst
  | left n =>
      have hlen : 0 < (Answer.taken (.left n) buffer).length := by
        by_contra hzero
        refine hfirst ?_
        rw [Answer.value, Nat.eq_zero_of_not_pos hzero]
        rfl
      rw [Answer.taken, List.length_take] at hlen
      refine ⟨n, buffer.drop (buffer.length - n), rfl, ?_, List.take_append_drop _ _⟩
      rw [List.length_drop]
      omega

/-- A stream that takes everything makes every request succeed. -/
theorem send_whole {req : Request} (hpath : req.path ≠ []) :
    (c.send req (.left 0) (.left 0)).error = none := by
  have hwhole : ∀ data : Text, Answer.value (.left 0) data = data.length := fun data => by
    rw [Answer.value, Answer.taken, Nat.sub_zero, List.take_length]
  rw [Client.send, if_neg hpath, Client.writeRequest]
  rw [hwhole, hwhole, if_neg, if_neg]
  · rintro ⟨hbody, hsize⟩
    rw [if_neg (by simpa using hbody)] at hsize
    exact hsize rfl
  · rw [Client.head, List.length_append, show crlf.length = 2 from rfl]
    omega

/-- What a call that succeeds has written. -/
theorem call_sent (h : verb.call c path headers body contentType first second = some a)
    (hok : a.error = none) :
    ∃ n rest, first = .left n ∧ rest.length = n ∧
      a.wire ++ rest = Lines.block crlf (verb.lines c path headers body contentType) := by
  have hsend : a = c.send ⟨verb.name, path, Client.withContentType headers contentType,
      verb.requestBody body⟩ first second := by
    cases verb with
    | delete => exact (Option.some.inj h).symm
    | post | put | patch =>
        rw [Verb.call] at h
        simp only [post, put, patch, Client.sendWithContentProvider] at h
        split_ifs at h
        exact (Option.some.inj h).symm
  rw [hsend, Client.send] at hok
  rw [hsend, Client.send]
  by_cases hpath : path = []
  · rw [if_pos hpath] at hok
    cases hok
  rw [if_neg hpath] at hok ⊢
  obtain ⟨n, rest, hfirst, hrest, hwire⟩ := writeRequest_sent hok
  refine ⟨n, rest, hfirst, hrest, hwire.trans ?_⟩
  rw [head_eq]
  rfl

/-- The fields that are written: those asked for, some of the code's own, and its length. -/
theorem requestHeaders_perm :
    ∃ own, (∀ e ∈ own, e ∈ ownFields) ∧
      (verb.requestHeaders c path headers body contentType).items.Perm
        (c.requested headers contentType ++ (own ++
          ownLength verb.name (verb.requestBody body) (c.requested headers contentType))) :=
  prepare_perm c headers contentType verb.name path (verb.requestBody body) (!c.keepAlive)

/-- Adding a field loses none. -/
theorem mem_addField {l : List Field} {e f : Field} (h : f ∈ l) : f ∈ addField l e := by
  rw [addField]
  split_ifs
  · exact h
  · exact List.mem_append_left _ h

/-- The caller's fields are asked for. -/
theorem mem_requested {f : Field} (h : f ∈ headers.items) :
    f ∈ c.requested headers contentType := by
  have hdefaults : ∀ (defaults l : List Field), f ∈ l → f ∈ defaults.foldl addField l := by
    intro defaults
    induction defaults with
    | nil => exact fun l hl => hl
    | cons e defaults ih => exact fun l hl => ih _ (mem_addField hl)
  have hauthorization : ∀ l : List Field, f ∈ l → f ∈ c.addAuthorization l := by
    intro l hl
    rw [Client.addAuthorization]
    by_cases hbasic : c.basicAuthPassword ≠ [] ∨ c.basicAuthUsername ≠ []
    · rw [if_pos hbasic]
      split_ifs
      · exact mem_addField (mem_addField hl)
      · exact mem_addField hl
    · rw [if_neg hbasic]
      split_ifs
      · exact mem_addField hl
      · exact hl
  exact hauthorization _ (mem_addField (hdefaults _ _ (List.mem_append_left _ h)))

/-- A number is read back from its decimal form. -/
theorem numberOf_decimal (n : ℕ) : numberOf (decimal n) = some n := by
  have hblank : ∀ l : Text, (∀ b ∈ l, 48 ≤ b ∧ b ≤ 57) →
      l.dropWhile (fun c : UInt8 => c == 32 || c == 9) = l := by
    intro l hl
    cases l with
    | nil => rfl
    | cons b l =>
        obtain ⟨hlow, -⟩ := hl b (List.mem_cons_self ..)
        refine List.dropWhile_cons_of_neg ?_
        have h32 : b ≠ 32 := fun heq => absurd (heq ▸ hlow) (by decide)
        have h9 : b ≠ 9 := fun heq => absurd (heq ▸ hlow) (by decide)
        simp [h32, h9]
  have hdigits : ∀ b ∈ decimal n, 48 ≤ b ∧ b ≤ 57 := fun b hb => digit_of_mem_decimal hb
  have htrim : (((decimal n).dropWhile fun c : UInt8 => c == 32 || c == 9).reverse.dropWhile
      fun c : UInt8 => c == 32 || c == 9).reverse = decimal n := by
    rw [hblank _ hdigits, hblank _ fun b hb => hdigits b (List.mem_reverse.mp hb),
      List.reverse_reverse]
  have hall : (decimal n).all (fun c => decide (48 ≤ c ∧ c ≤ 57)) = true := by
    simpa using hdigits
  simp only [numberOf, htrim, hall, decimalVal_decimal]
  rw [if_pos ⟨decimal_ne_nil n, trivial⟩]

/-- **The bytes of a delivered request are the whole head**: the stream has left nothing, and
there is no body. Its fields are those whose lines could be formatted. -/
theorem Delivered.spec {wire rest : Text} (h : Delivered c verb path headers body contentType wire)
    (hwire : wire ++ rest = Lines.block crlf (verb.lines c path headers body contentType)) :
    body.bytes = [] ∧ rest = [] ∧ TargetOk (c.target path) ∧
      Short (requestLine verb.name (c.target path)) ∧
      ∃ m : Message, m.WellFormed ∧ m.body = [] ∧
        (c.requested headers contentType).Subperm m.fields ∧
        (lengthFields headers.items = [] → lengthFields m.fields ≠ []) ∧
        m.fields = (verb.requestHeaders c path headers body contentType).items.filter
          fun f => Short (fieldLine f) := by
  obtain ⟨m, rfl, hm, hmethod, htarget, hrequested, hlength, hbody⟩ := h
  have htargetOk : TargetOk (c.target path) := htarget ▸ hm.target
  -- what is written is in order, since all that is asked for is
  have hitems : ∀ f ∈ (verb.requestHeaders c path headers body contentType).items,
      Field.Ok f := by
    obtain ⟨own, hown, hperm⟩ := @requestHeaders_perm c verb path headers body contentType
    intro f hf
    rcases List.mem_append.mp (hperm.mem_iff.mp hf) with hf | hf
    · exact hm.fields f (hrequested.subset hf)
    · rcases List.mem_append.mp hf with hf | hf
      · exact (ok_of_mem_ownFields f (hown f hf)).1
      · exact ok_of_mem_ownLength hf
  have hlines : ∀ line ∈ verb.lines c path headers body contentType, Lines.IsLine 13 line := by
    intro line hline
    rcases List.mem_cons.mp (List.mem_of_mem_filter hline) with rfl | hline
    · exact requestLine_isLine verb htargetOk
    · obtain ⟨f, hf, rfl⟩ := List.mem_map.mp hline
      exact (hitems f hf).isLine
  have hlines' : ∀ line ∈ requestLine m.method m.target :: m.fields.map fieldLine,
      Lines.IsLine 13 line := by
    intro line hline
    rcases List.mem_cons.mp hline with rfl | hline
    · rw [hmethod]
      exact requestLine_isLine verb hm.target
    · obtain ⟨f, hf, rfl⟩ := List.mem_map.mp hline
      exact (hm.fields f hf).isLine
  rw [Message.bytes, List.append_assoc] at hwire
  obtain ⟨heq, hrest⟩ := Lines.block_append_inj hlines' hlines
    (hwire.trans (List.append_nil _).symm)
  obtain ⟨hmbody, hrestnil⟩ := List.append_eq_nil_iff.mp hrest
  have hshort : Short (requestLine verb.name (c.target path)) := by
    have hmem := List.mem_cons_self (a := requestLine m.method m.target)
      (l := m.fields.map fieldLine)
    rw [heq, hmethod, htarget] at hmem
    exact of_decide_eq_true (List.mem_filter.mp hmem).2
  refine ⟨hbody.symm.trans hmbody, hrestnil, htargetOk, hshort, m, hm, hmbody, hrequested,
    hlength, ?_⟩
  rw [Verb.lines, List.filter_cons_of_pos (by simpa using hshort), List.filter_map] at heq
  exact fields_eq_of_lines hm.fields (fun f hf => hitems f (List.mem_of_mem_filter hf))
    (List.cons.inj heq).2

/-- The length that is written of the code's own. -/
def Verb.writtenLength (verb : Verb) (body : Body) (fields : List Field) : List Field :=
  (ownLength verb.name (verb.requestBody body) fields).filter fun f => Short (fieldLine f)

/-- What is written for the body is a `Content-Length`. -/
theorem eq_of_mem_writtenLength {fields : List Field} {e : Field}
    (he : e ∈ verb.writtenLength body fields) : ∃ v, e = (ascii "Content-Length", v) :=
  eq_of_mem_ownLength (List.mem_of_mem_filter he)

/-- Without a body, the code's length is zero where it looks at the method alone. -/
theorem writtenLength_cases {fields : List Field} (hbody : body.bytes = []) :
    if verb ≠ .delete ∧ cstr body.behind = [] then
      verb.writtenLength body fields = [(ascii "Content-Length", ascii "0")]
    else
      verb.writtenLength body fields = [] ∨ lengthFields fields = [] ∧
        ∃ n, n ≠ 0 ∧ verb.writtenLength body fields = [(ascii "Content-Length", decimal n)] := by
  have hstring : verb ≠ .delete → verb.requestBody body = cstr body.behind := by
    intro hverb
    rw [Verb.requestBody, if_neg hverb, Body.string, hbody]
    rfl
  rw [Verb.writtenLength, ownLength]
  by_cases hverb : verb = .delete
  · have hnil : verb.requestBody body = [] := by rw [Verb.requestBody, if_pos hverb, hbody]
    rw [if_neg fun h => h.1 hverb, if_pos hnil, hverb]
    exact .inl rfl
  · have hsends : sendsLength verb.name = true := by
      cases verb with
      | delete => exact absurd rfl hverb
      | post | put | patch => rfl
    by_cases hbehind : cstr body.behind = []
    · rw [if_pos ⟨hverb, hbehind⟩, hstring hverb, if_pos hbehind, if_pos hsends]
      decide
    · rw [if_neg fun h => hbehind h.2, hstring hverb, if_neg hbehind]
      by_cases hgiven : lengthFields fields = []
      · rw [if_pos hgiven]
        by_cases hline : Short (fieldLine (ascii "Content-Length",
            decimal (cstr body.behind).length))
        · rw [List.filter_cons_of_pos (by simpa using hline)]
          exact .inr ⟨hgiven, _, fun h => hbehind (List.eq_nil_of_length_eq_zero h), rfl⟩
        · rw [List.filter_cons_of_neg (by simpa using hline)]
          exact .inl rfl
      · rw [if_neg hgiven]
        exact .inl rfl

/-- **The fields whose lines are written**, if all that are asked for are among them. -/
theorem written_perm
    (hshort : ∀ f ∈ c.requested headers contentType, Short (fieldLine f)) :
    ∃ own, (∀ e ∈ own, e ∈ ownFields) ∧
      ((verb.requestHeaders c path headers body contentType).items.filter
        fun f => Short (fieldLine f)).Perm (c.requested headers contentType ++ (own ++
          verb.writtenLength body (c.requested headers contentType))) := by
  obtain ⟨own, hown, hperm⟩ := @requestHeaders_perm c verb path headers body contentType
  refine ⟨own, hown, ?_⟩
  have hkeep := hperm.filter fun f => decide (Short (fieldLine f))
  have hrequested : (c.requested headers contentType).filter
      (fun f => decide (Short (fieldLine f))) = c.requested headers contentType :=
    List.filter_eq_self.mpr fun f hf => decide_eq_true (hshort f hf)
  have hall : own.filter (fun f => decide (Short (fieldLine f))) = own :=
    List.filter_eq_self.mpr fun e he => decide_eq_true (ok_of_mem_ownFields e (hown e he)).2
  rwa [List.filter_append, List.filter_append, hrequested, hall] at hkeep

section Counts

variable {fields own : List Field} (hown : ∀ e ∈ own, e ∈ ownFields)
  (hperm : fields.Perm (c.requested headers contentType ++ (own ++
    verb.writtenLength body (c.requested headers contentType))))

include hown hperm

/-- Host and transfer coding are those asked for. -/
theorem countP_written {name : Text} (hnot : ∀ e ∈ ownFields, Field.named name e = false)
    (hnotLength : lowered (ascii "Content-Length") ≠ lowered name) :
    fields.countP (Field.named name) =
      (c.requested headers contentType).countP (Field.named name) := by
  have hnone : own.countP (Field.named name) = 0 :=
    List.countP_eq_zero.mpr fun e he => by simp [hnot e (hown e he)]
  have hnoneLength : (verb.writtenLength body (c.requested headers contentType)).countP
      (Field.named name) = 0 := by
    rw [List.countP_eq_zero]
    intro e he
    obtain ⟨v, rfl⟩ := eq_of_mem_writtenLength he
    simp [Field.named, hnotLength]
  rw [hperm.countP_eq, List.countP_append, List.countP_append, hnone, hnoneLength, Nat.add_zero]

/-- The lengths are those asked for, and the code's. -/
theorem lengthFields_written : (lengthFields fields).Perm
    (lengthFields (c.requested headers contentType) ++
      verb.writtenLength body (c.requested headers contentType)) := by
  have hkeep := hperm.filter (Field.named (ascii "Content-Length"))
  have hnone : own.filter (Field.named (ascii "Content-Length")) = [] := by
    rw [List.filter_eq_nil_iff]
    intro e he
    have hnot : ∀ e ∈ ownFields, ¬ Field.named (ascii "Content-Length") e = true := by decide
    exact hnot e (hown e he)
  have hall : (verb.writtenLength body (c.requested headers contentType)).filter
      (Field.named (ascii "Content-Length")) =
        verb.writtenLength body (c.requested headers contentType) := by
    rw [List.filter_eq_self]
    intro e he
    obtain ⟨v, rfl⟩ := eq_of_mem_writtenLength he
    rfl
  rwa [List.filter_append, List.filter_append, hnone, List.nil_append, hall] at hkeep

/-- **One length of zero** is written exactly if the lengths that are asked for fit to what the
code adds. -/
theorem length_written_iff (hbody : body.bytes = []) :
    (∃ f, lengthFields fields = [f] ∧ numberOf f.2 = some 0) ↔
      if verb ≠ .delete ∧ cstr body.behind = [] then
        lengthFields (c.requested headers contentType) = []
      else
        ∃ f, lengthFields (c.requested headers contentType) = [f] ∧ numberOf f.2 = some 0 := by
  have hlengths := lengthFields_written hown hperm
  have hcases := @writtenLength_cases verb body (c.requested headers contentType) hbody
  by_cases hmethod : verb ≠ .delete ∧ cstr body.behind = []
  · rw [if_pos hmethod] at hcases ⊢
    rw [hcases] at hlengths
    constructor
    · rintro ⟨f, hf, -⟩
      have hcount := hlengths.length_eq
      rw [hf, List.length_append] at hcount
      exact List.eq_nil_of_length_eq_zero (Nat.succ.inj hcount).symm
    · intro hnil
      rw [hnil] at hlengths
      exact ⟨_, List.perm_singleton.mp hlengths, by decide⟩
  · rw [if_neg hmethod] at hcases ⊢
    rcases hcases with hcases | ⟨hnil, n, hn, hcases⟩
    · rw [hcases, List.append_nil] at hlengths
      constructor
      · rintro ⟨f, hf, hzero⟩
        rw [hf] at hlengths
        exact ⟨f, List.perm_singleton.mp hlengths.symm, hzero⟩
      · rintro ⟨f, hf, hzero⟩
        rw [hf] at hlengths
        exact ⟨f, List.perm_singleton.mp hlengths, hzero⟩
    · -- the length of what stands behind the body is not zero
      rw [hcases, hnil] at hlengths
      refine iff_of_false ?_ ?_
      · rintro ⟨f, hf, hzero⟩
        obtain rfl := List.singleton_inj.mp (hf.symm.trans (List.perm_singleton.mp hlengths))
        rw [numberOf_decimal] at hzero
        exact hn (Option.some.inj hzero)
      · rintro ⟨f, hf, -⟩
        rw [hnil] at hf
        cases hf

end Counts

/-- **Delivered requests.** What a successful call has written is the request that was asked for
exactly if there is no body, the stream has taken the whole head, and the head is in order. -/
theorem request_delivered_iff (c : Client) (verb : Verb) (path : Text) (headers : Headers)
    (body : Body) (contentType : Text) (first second : Answer) (a : Attempt)
    (h : verb.call c path headers body contentType first second = some a)
    (hok : a.error = none) :
    Delivered c verb path headers body contentType a.wire ↔
      Deliverable c verb path headers body contentType first := by
  obtain ⟨n, rest, rfl, hrest, hwire⟩ := call_sent h hok
  constructor
  · intro hdelivered
    obtain ⟨hbody, hnil, htarget, hline, m, hm, hmbody, hsub, hlength, hfields⟩ :=
      hdelivered.spec hwire
    have hrequested : ∀ f ∈ c.requested headers contentType, f.Ok ∧ Short (fieldLine f) := by
      intro f hf
      have hmem := hsub.subset hf
      refine ⟨hm.fields f hmem, ?_⟩
      rw [hfields] at hmem
      exact of_decide_eq_true (List.mem_filter.mp hmem).2
    obtain ⟨own, hown, hperm⟩ := @written_perm c verb path headers body contentType fun f hf =>
      (hrequested f hf).2
    rw [← hfields] at hperm
    refine ⟨hbody, by rw [← hrest, hnil]; rfl, htarget, hline, hrequested, ?_, ?_, ?_⟩
    · rw [← countP_written hown hperm (by decide) (by decide), hm.host]
    · rw [← countP_written hown hperm (by decide) (by decide), hm.coding]
    · refine (length_written_iff hown hperm hbody).mp ?_
      rcases hm.framing with ⟨hnone, -⟩ | ⟨f, hf, hnumber⟩
      · -- without a length, the caller has given none, and one is missing
        refine absurd hnone (hlength (List.filter_eq_nil_iff.mpr fun f hf => ?_))
        exact List.filter_eq_nil_iff.mp hnone f (hsub.subset (mem_requested hf))
      · rw [hmbody] at hnumber
        exact ⟨f, hf, hnumber⟩
  · intro hdeliverable
    obtain ⟨hbody, hstream, htarget, hline, hrequested, hhost, hcoding, hlength⟩ := hdeliverable
    obtain ⟨own, hown, hperm⟩ := @written_perm c verb path headers body contentType fun f hf =>
      (hrequested f hf).2
    obtain ⟨f, hf, hzero⟩ := (length_written_iff hown hperm hbody).mpr hlength
    have hnil : rest = [] := by
      rw [← List.length_eq_zero_iff, hrest]
      exact Answer.left.inj hstream
    rw [hnil, List.append_nil] at hwire
    refine ⟨⟨verb.name, c.target path, _, []⟩, ?_, ⟨htarget, fun f hf => ?_, ?_, ?_,
      .inr ⟨f, hf, hzero⟩⟩, rfl, rfl, ?_, fun _ => by rw [hf]; simp, hbody.symm⟩
    · rw [hwire, Verb.lines, List.filter_cons_of_pos (by simpa using hline), List.filter_map]
      exact List.append_nil _
    · rcases List.mem_append.mp (hperm.mem_iff.mp hf) with hf | hf
      · exact (hrequested f hf).1
      · rcases List.mem_append.mp hf with hf | hf
        · exact (ok_of_mem_ownFields f (hown f hf)).1
        · exact ok_of_mem_ownLength (List.mem_of_mem_filter hf)
    · exact (countP_written hown hperm (by decide) (by decide)).trans hhost
    · exact (countP_written hown hperm (by decide) (by decide)).trans hcoding
    · exact (List.sublist_append_left _ _).subperm.trans hperm.symm.subperm

end Wire

/-- A client of the host `h`. -/
def plainClient : Client where
  host := ascii "h"
  port := 80
  hostAndPort := ascii "h:80"

/-- A `POST` of nothing is delivered. -/
theorem empty_post_delivered :
    Delivered plainClient .post (ascii "/a") (.empty lowered) { bytes := [] } []
      (plainClient.send ⟨ascii "POST", ascii "/a", .empty lowered, []⟩ (.left 0) (.left 0)).wire :=
  (request_delivered_iff plainClient .post (ascii "/a") (.empty lowered) { bytes := [] } []
    (.left 0) (.left 0)
    (plainClient.send ⟨ascii "POST", ascii "/a", .empty lowered, []⟩ (.left 0) (.left 0))
      rfl (send_whole (by decide))).mpr
    ⟨rfl, rfl, ⟨by decide, by decide⟩, by decide, by decide, by decide, by decide, by
      rw [if_pos (by decide)]
      decide⟩

/-- **Lost bodies.** A `POST` and a `DELETE` of `hello` are written successfully, with a length of
zero and of five, and without the body. -/
theorem hello_not_delivered :
    (∃ a, post plainClient (ascii "/a") (.empty lowered) { bytes := ascii "hello" } [] (.left 0)
        (.left 0) = some a ∧ a.error = none ∧
      ¬ Delivered plainClient .post (ascii "/a") (.empty lowered) { bytes := ascii "hello" } []
        a.wire) ∧
    ∃ a, delete plainClient (ascii "/a") (.empty lowered) { bytes := ascii "hello" } [] (.left 0)
        (.left 0) = some a ∧ a.error = none ∧
      ¬ Delivered plainClient .delete (ascii "/a") (.empty lowered) { bytes := ascii "hello" } []
        a.wire := by
  have hlost : ∀ (verb : Verb) (a : Attempt), verb.call plainClient (ascii "/a") (.empty lowered)
      { bytes := ascii "hello" } [] (.left 0) (.left 0) = some a → a.error = none →
        ¬ Delivered plainClient verb (ascii "/a") (.empty lowered) { bytes := ascii "hello" } []
          a.wire := by
    intro verb a h hok hdelivered
    obtain ⟨n, rest, -, -, hwire⟩ := call_sent h hok
    obtain ⟨hbody, -⟩ := hdelivered.spec hwire
    exact absurd hbody (by decide)
  have hpath : ascii "/a" ≠ [] := by decide
  exact ⟨⟨_, rfl, send_whole hpath, hlost .post _ rfl (send_whole hpath)⟩,
    _, rfl, send_whole hpath, hlost .delete _ rfl (send_whole hpath)⟩

end ArchNet.HttpClient

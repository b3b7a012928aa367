import Cld.Model.Stream

/-!
# Response heads

`Response` and its constructor, `ParseHeaderString`, the byte loop that collects a head, and
the blocking `ReadToResponse`.

The byte loop is written twice in the source, in `ReadToResponse` and in the `Receiving` block
of `Worker::process`: both push the bytes one after the other and end at a CR that follows a
LF, which a second, nested read must find followed by a LF.  `readHead` is that loop;
`last_char` is not updated on the way into the nested read, so that a suspension there leaves
it at the LF.  What the two callers do with each way out of the loop differs.

The constructor reads the head as a NUL-terminated string, and its header loop leaves only
through a line that starts with CR or through a parse error, since the result of
`std::getline` is not tested: at the end of the string the last line is parsed again.
`Response.parse` is therefore `none` when the constructor does not return.
-/

namespace Cld

open Framework

/-! ## The regular expressions -/

/-- `[a-zA-Z0-9!#$%&'*+.^_|~-]` with the grave accent: the characters of a header name. -/
def isToken (c : Byte) : Bool :=
  isAlpha c || isDigit c || (bytes "!#$%&'*+.^_|~-").contains c || c == 96

/-- `[^\r\n]`. -/
def isText (c : Byte) : Bool := c != CR && c != LF

/-- `HTTP\/([\d.]+)\s+([\d]{3})\s+([^\r\n]+)\r`. -/
def startLineRegex : Regex Byte :=
  .seqs [.lit (bytes "HTTP/"), .group 1 (.plus fun c => isDigit c || c == 46),
    .plus isSpace, .group 2 (.seqs [.one isDigit, .one isDigit, .one isDigit]),
    .plus isSpace, .group 3 (.plus isText), .one (· == CR)]

/-- `([a-zA-Z0-9!#$%&'*+.^_|~-]+)\s*:\s*([^\r\n]*)(:?\r\n?)?`, with the grave accent in the
first class. -/
def headerRegex : Regex Byte :=
  .seqs [.group 1 (.plus isToken), .star isSpace, .one (· == 58), .star isSpace,
    .group 2 (.star isText),
    .opt (.group 3 (.seqs [.opt (.one (· == 58)), .one (· == CR), .opt (.one (· == LF))]))]

/-- `.*;\s*$`, matched against the whole string, which makes the final assertion idle. -/
def cookieEndRegex : Regex Byte :=
  .seqs [.star isText, .one (· == 59), .star isSpace]

def ParseHeaderString (str : Bytes) : Except Exn (Bytes × Bytes) :=
  match headerRegex.fullMatch str with
  | some groups => .ok (groups 1, groups 2)
  | none => .error (.runtimeError "Invalid header")

/-! ## The constructor -/

structure Response where
  status : ℤ := 0
  httpVersion : Bytes := []
  statusText : Bytes := []
  headers : StringMap := []

namespace Response

/-- `response[header]`: the empty string for a header that is absent. -/
def get (r : Response) (header : String) : Bytes :=
  (SortedMap.find r.headers (bytes header)).getD []

def isOk (r : Response) : Bool := 200 ≤ r.status && r.status ≤ 299

/-- What is left of a `std::istringstream`, and whether its end has been hit. -/
structure LineStream where
  rest : Bytes
  eof : Bool := false

/-- `std::getline(ss, line)`; on a stream already at its end it fails and leaves the line
alone. -/
def getline (ss : LineStream) (line : Bytes) : Bytes × LineStream :=
  if ss.eof then (line, ss)
  else
    match ss.rest.span (· != LF) with
    | (taken, []) => (taken, { rest := [], eof := true })
    | (taken, _ :: rest) => (taken, { rest := rest })

/-- Store one parsed header; the values of `Set-Cookie` are joined. -/
def store (headers : StringMap) (name value : Bytes) : StringMap :=
  if name = bytes "Set-Cookie" then
    let old := (SortedMap.find headers name).getD []
    let joint := if old ≠ [] ∧ (cookieEndRegex.fullMatch old).isNone then bytes "; " else []
    SortedMap.assign bytesLt name (old ++ joint ++ value) headers
  else SortedMap.assign bytesLt name value headers

/-- The header loop, for at most `fuel` lines; `none` if it is still running then. -/
def headerLoop : ℕ → LineStream → Bytes → StringMap → Option (Except Exn StringMap)
  | 0, _, _, _ => none
  | fuel + 1, ss, line, headers =>
    let (line, ss) := getline ss line
    if line.head? = some CR then some (.ok headers)
    else
      match ParseHeaderString line with
      | .error e => some (.error e)
      | .ok (name, value) => headerLoop fuel ss line (store headers name value)

/-- `Response::Response(response)`.  Each `getline` takes a character or meets the end of the
string, and from there on every iteration repeats the one before, so a loop that outlives the
string never ends. -/
def parse (response : Bytes) : Option (Except Exn Response) :=
  let (line, ss) := getline { rest := response.takeWhile (· != 0) } []
  match startLineRegex.fullMatch line with
  | none => some (.error (.runtimeError "Invalid response start line"))
  | some groups =>
    match headerLoop (response.length + 2) ss line [] with
    | none => none
    | some (.error e) => some (.error e)
    | some (.ok headers) =>
      some (.ok
        { status := ((readDigits 10 none (groups 2)).getD 0 : ℕ)
          httpVersion := groups 1
          statusText := groups 3
          headers := headers })

end Response

/-- A head is accepted with a response of which something can be computed. -/
lemma exists_of_accepted {α : Type} {result : Option (Except Exn Response)} {f : Response → α}
    {v : α} (h : (result.bind Except.toOption).map f = some v) :
    ∃ r, result = some (.ok r) ∧ f r = v := by
  obtain ⟨r, hresult, hv⟩ := Option.map_eq_some_iff.1 h
  obtain ⟨outcome, hsome, hr⟩ := Option.bind_eq_some_iff.1 hresult
  cases outcome with
  | error e => cases hr
  | ok r' =>
    obtain rfl := Option.some.inj hr
    exact ⟨r', hsome, hv⟩

/-! ## Collecting a head -/

/-- The ways out of the byte loop, each with the bytes collected so far, `last_char` and the
rest of the stream. -/
inductive HeadRead
  /-- The final CR LF was read: a `Response` is built from the bytes. -/
  | complete (data : Bytes) (rest : Inbound)
  /-- The CR is not followed by a LF: `std::runtime_error`. -/
  | noLf (data : Bytes) (last : Byte) (rest : Inbound)
  | again (data : Bytes) (last : Byte) (rest : Inbound)
  /-- A read returned 0. -/
  | ended (data : Bytes) (last : Byte) (rest : Inbound)
  | threw (e : Exn) (data : Bytes) (last : Byte) (rest : Inbound)
  deriving DecidableEq

/-- The byte loop: `while (stream.read(p, 1) == 1) { … }`. -/
def readHead (data : Bytes) (last : Byte) : Inbound → HeadRead
  | [] => .again data last []
  | .again :: rest => .again data last rest
  | .fail e :: rest => .threw e data last rest
  | .eof :: rest => .ended data last (.eof :: rest)
  | .byte c _ :: rest =>
    if last = LF ∧ c = CR then
      match Inbound.read 1 rest with
      | (.ok bs, rest) =>
        if bs = [LF] then .complete (data ++ [c] ++ [LF]) rest
        else .noLf (data ++ [c]) last rest
      | (.again, rest) => .again (data ++ [c]) last rest
      | (.threw e, rest) => .threw e (data ++ [c]) last rest
    else readHead (data ++ [c]) c rest

def noLfException : Exn := .runtimeError "No \\n follows \\r in stream"

/-- What `ReadToResponse` comes to. -/
inductive HeadOutcome
  /-- The constructor of `Response` is called on these bytes; the rest is still unread. -/
  | response (data : Bytes) (unread : Inbound)
  | threw (e : Exn)
  /-- A read never returns. -/
  | blocks
  deriving DecidableEq

/-- `http::ReadToResponse` on a blocking stream, which waits instead of reporting `kAgain`, up
to the construction of the `Response`. -/
def ReadToResponse (items : Inbound) : HeadOutcome :=
  match readHead [] 0 (items.filter (· ≠ .again)) with
  | .complete data rest => .response data rest
  | .noLf _ _ _ => .threw noLfException
  | .again _ _ _ => .blocks
  | .ended _ _ _ => .threw (.runtimeError "Failed to read to response")
  | .threw e _ _ _ => .threw e

end Cld

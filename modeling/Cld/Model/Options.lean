import Cld.Framework.Regex
import Cld.Model.Response

/-!
# Options

`Options` with its setters, and the loop of `main` that calls them with the arguments of the
command line.

Two overloads add a header.  The one the user reaches takes a whole line and parses it with an
expression of its own; the redirect loop uses the other one, which takes a name and a value.
Both insert: a header that is there already stays as it is.
-/

namespace Cld

open Framework

def kCldVersion : Bytes := bytes "0.0.0"

/-- `std::invalid_argument`, which is a `std::logic_error`. -/
def invalidArgument (what : String) : Exn := .logicError what

structure Options where
  connectionsNumber : ℤ := 8
  userAgent : Bytes := bytes "Cld/" ++ kCldVersion
  outputPath : Bytes := []
  extraHeaders : StringMap := []

namespace Options

/-- `([a-zA-Z0-9!#$%&'*+.^_|~-]+)\s*:\s*([^\r\n]*)`, with the grave accent in the first
class. -/
def headerRegex : Regex Byte :=
  .seqs [.group 1 (.plus isToken), .star isSpace, .one (· == 58), .star isSpace,
    .group 2 (.star isText)]

def parseHeaderString (str : Bytes) : Except Exn (Bytes × Bytes) :=
  match headerRegex.fullMatch str with
  | some groups => .ok (groups 1, groups 2)
  | none => .error (.runtimeError "Invalid header")

/-! ## The setters -/

def setConnectionsNumber (o : Options) (n : ℤ) : Except Exn Options :=
  if n > 0 then .ok { o with connectionsNumber := n }
  else .error (invalidArgument "Invalid connections Number option")

def setUserAgent (o : Options) (str : Bytes) : Except Exn Options :=
  if str = [] then .error (.runtimeError "Empty user agent")
  else .ok { o with userAgent := str }

def setOutputPath (o : Options) (str : Bytes) : Except Exn Options :=
  if str ≠ [] then .ok { o with outputPath := str }
  else .error (invalidArgument "Empty output path")

/-- `extra_headers.insert(…)`. -/
def insertHeader (o : Options) (name value : Bytes) : Options :=
  { o with extraHeaders := SortedMap.insertNew bytesLt name value o.extraHeaders }

/-- `addExtraHeader(str)`. -/
def addHeaderLine (o : Options) (str : Bytes) : Except Exn Options :=
  if str ≠ [] then
    match parseHeaderString str with
    | .ok (name, value) => .ok (o.insertHeader name value)
    | .error e => .error e
  else .error (invalidArgument "Empty header")

/-- `addExtraHeader(name, value)`. -/
def addExtraHeader (o : Options) (name value : Bytes) : Except Exn Options :=
  if name = [] ∨ value = [] then .error (invalidArgument "Empty header name or value")
  else .ok (o.insertHeader name value)

end Options

/-! ## The command line -/

/-- `ss >> tmp` for an `int tmp`: the value if the stream is still good. -/
def extractInt (s : Bytes) : Option ℤ :=
  match s.dropWhile isSpace with
  | [] => none
  | c :: rest =>
    let (negative, digits) := splitSign (c :: rest)
    match readDigits 10 none (dropBasePrefix 10 digits) with
    | none => none
    | some n =>
      let value : ℤ := if negative then -n else n
      if -2 ^ 31 ≤ value ∧ value < 2 ^ 31 then some value else none

/-- What `getopt_long` returns, with `optarg`. -/
inductive CommandOption
  | numConnections (optarg : Bytes)
  | output (optarg : Bytes)
  | userAgent (optarg : Bytes)
  | header (optarg : Bytes)
  /-- `-h`, or an option that is not known. -/
  | help
  deriving DecidableEq

namespace Options

/-- One round of the option loop; `none` when the program prints its help and exits. -/
def readOption (o : Options) : CommandOption → Except Exn (Option Options)
  | .numConnections optarg =>
    match extractInt optarg with
    | some n => (o.setConnectionsNumber n).map some
    | none => .error (invalidArgument "Invalid connections number")
  | .output optarg => (o.setOutputPath optarg).map some
  | .userAgent optarg => (o.setUserAgent optarg).map some
  | .header optarg => (o.addHeaderLine optarg).map some
  | .help => .ok none

/-- The option loop of `main`. -/
def readOptions (o : Options) : List CommandOption → Except Exn (Option Options)
  | [] => .ok (some o)
  | arg :: args =>
    match o.readOption arg with
    | .error e => .error e
    | .ok none => .ok none
    | .ok (some o) => o.readOptions args

end Options

end Cld

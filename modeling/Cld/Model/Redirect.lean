import Cld.Model.Download
import Cld.Model.Options
import Cld.Model.Url

/-!
# `Cld`

The function that follows redirects until a response is good, and then chooses how to download.

One step of `Redirection.step` is one round of the `do … while (!find)` loop: a `HEAD` request
is built from the current URL and the current options, sent over a connection of its own, and
the answer is analysed.  The label is what the connection comes to, either an exception (no
address, no connection, a write that fails) or the bytes the server sends.  A round in which
the blocking read never returns, or the constructor of the `Response` does not, is refused.

Printing, and the file the body goes to, are left out.
-/

namespace Cld

open Framework

/-- `Request::Request(method, url, options)`. -/
def Request.create (method : Bytes) (url : Url) (options : Options) : Request :=
  let r : Request := { method := method, resource := url.resource }
  let r := (r.set "Host" url.host).set "User-Agent" options.userAgent
  { r with
    headers := options.extraHeaders.foldl
      (fun headers extra => SortedMap.assign bytesLt extra.1 extra.2 headers) r.headers }

/-! ## The redirect loop -/

/-- The expression a relative `Location` must match:
`\/(…*)(?:\?(…*))?(?:#(…*))?`, its groups numbered 1 to 3. -/
def relativeRegex : Regex Byte :=
  .seqs [.one (· == 47), .group 1 (.star isPathChar), partRegex 63 2 isQueryChar,
    partRegex 35 3 isQueryChar]

/-- The new URL after a redirect: the `Location` as a URL of its own, or a resource on the same
host. -/
def followLocation (url : Url) (location : Bytes) : Except Exn Url :=
  if location = [] then .error (.runtimeError "No Location given in redirects")
  else
    match Url.parse location with
    | .ok url => .ok url
    | .error _ =>
      match relativeRegex.fullMatch location with
      | some matched =>
        .ok { url with path := matched 1, query := matched 2, fragment := matched 3 }
      | none => .error (.runtimeError "Invalid Location in redirects")

/-- The `switch` on the status: whether the resource has been found, and the URL from there
on. -/
def analyse (url : Url) (response : Response) : Except Exn (Bool × Url) :=
  if response.status = 300 ∨ response.status = 301 ∨ response.status = 302 ∨
      response.status = 307 then
    (followLocation url (response.get "Location")).map fun url => (false, url)
  else if response.status = 303 ∨ response.status = 304 ∨ response.status = 305 then
    .error (.runtimeError "Unsupported redirect")
  else if response.isOk then .ok (true, url)
  else .error (.runtimeError "Failed to get resource")

/-- `if (!response["Set-Cookie"].empty())`. -/
def keepCookie (options : Options) (response : Response) : Except Exn Options :=
  if response.get "Set-Cookie" ≠ [] then
    options.addExtraHeader (bytes "Cookie") (response.get "Set-Cookie")
  else .ok options

/-- The part of a path after its last `/`. -/
def lastComponent (path : Bytes) : Bytes :=
  (path.reverse.takeWhile (· != 47)).reverse

/-- `if (options.getOutputPath().empty())`: name the file after the resource. -/
def nameOutput (options : Options) (url : Url) : Except Exn Options :=
  if options.outputPath = [] ∧ lastComponent url.path ≠ [] then
    options.setOutputPath (lastComponent url.path)
  else .ok options

/-- What one connection of the loop comes to. -/
inductive Contact
  | failed (e : Exn)
  /-- The request was sent, and this is what the server answers. -/
  | answered (inbound : Inbound)

/-- Where the function is. -/
inductive Phase
  /-- At the head of the loop. -/
  | looking
  /-- Past the loop, with the last request and its response. -/
  | found (request : Request) (response : Response)
  | failed (e : Exn)

structure Redirection where
  options : Options
  url : Url
  phase : Phase := .looking

namespace Redirection

/-- The request of the round that begins in this state. -/
def headRequest (s : Redirection) : Request := .create (bytes "HEAD") s.url s.options

/-- What is made of the response. -/
def settle (s : Redirection) (request : Request) (response : Response) : Redirection :=
  match analyse s.url response with
  | .error e => { s with phase := .failed e }
  | .ok (find, url) =>
    let s := { s with url := url }
    match keepCookie s.options response with
    | .error e => { s with phase := .failed e }
    | .ok options =>
      { s with
        options := options
        phase := if find then .found request response else .looking }

/-- **One round of the loop.** -/
def step (s : Redirection) (contact : Contact) : Option Redirection :=
  match s.phase with
  | .looking =>
    match nameOutput s.options s.url with
    | .error e => some { s with phase := .failed e }
    | .ok options =>
      let s := { s with options := options }
      match contact with
      | .failed e => some { s with phase := .failed e }
      | .answered inbound =>
        match ReadToResponse inbound with
        | .blocks => none
        | .threw e => some { s with phase := .failed e }
        | .response data _ =>
          match Response.parse data with
          | none => none
          | some (.error e) => some { s with phase := .failed e }
          | some (.ok response) => some (s.settle s.headRequest response)
  | _ => none

end Redirection

/-! ## The download -/

/-- A `std::size_t` where an `off_t` is expected. -/
def toOff (n : ℕ) : ℤ := if n < 2 ^ 63 then n else n - 2 ^ 64

/-- How the resource is downloaded. -/
inductive Selected
  /-- `SingleConnectionDownload`: one worker, given this request. -/
  | single (request : Request)
  /-- `MultiConnectionDownload`. -/
  | multi (cfg : Config)

/-- The rest of `Cld` once the resource has been found. -/
def selectDownload (options : Options) (request : Request) (response : Response) : Selected :=
  let request := { request with method := bytes "GET" }
  match extractSize (response.get "Content-Length") with
  | none => .single request
  | some fileSize =>
    .multi
      { size := toOff fileSize
        connectionNumber :=
          if response.get "Accept-Ranges" = bytes "none" then 1
          else options.connectionsNumber.toNat
        request := request }

end Cld

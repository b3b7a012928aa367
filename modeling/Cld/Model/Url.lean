import Cld.Model.Basic

/-!
# URLs

`Url`: the two regular expressions of its constructor, one for a host name and one for a
bracketed IPv6 address, the parts they capture, the resource that a request asks for, and the
text that is printed.

The groups are numbered as in the source: scheme, host, port, path, query, fragment.  Whichever
of the expressions matches, the constructor reads the same six groups; a group that took no
part in the match leaves its field empty.
-/

namespace Cld

open Framework

/-! ## The regular expressions -/

/-- `[\w+.-]`. -/
def isSchemeChar (c : Byte) : Bool :=
  isAlpha c || isDigit c || (bytes "_+.-").contains c

/-- `[A-Za-z0-9.-]`. -/
def isHostChar (c : Byte) : Bool :=
  isAlpha c || isDigit c || (bytes ".-").contains c

/-- `[A-Za-z0-9:%]`. -/
def isIpv6Char (c : Byte) : Bool :=
  isAlpha c || isDigit c || (bytes ":%").contains c

/-- The class of the characters ``a-zA-Z0-9._~!$&'()*+,;=:@%\/`` and of a hyphen at its end, which
stands for itself. -/
def isPathChar (c : Byte) : Bool :=
  isAlpha c || isDigit c || (bytes "._~!$&'()*+,;=:@%-/").contains c

/-- `[a-zA-Z0-9._~!$&'()*+,;=:@\/?%-]`. -/
def isQueryChar (c : Byte) : Bool :=
  isAlpha c || isDigit c || (bytes "._~!$&'()*+,;=:@/?%-").contains c

/-- `(?:([\w+.-]*):)?`. -/
def schemeRegex : Regex Byte :=
  .opt (.seqs [.group 1 (.star isSchemeChar), .one (· == 58)])

/-- `(?::(\d+))?`. -/
def portRegex : Regex Byte := .opt (.seqs [.one (· == 58), .group 3 (.plus isDigit)])

/-- A delimiter and the part after it, `(?:d(class*))?`. -/
def partRegex (delimiter : Byte) (n : ℕ) (p : Byte → Bool) : Regex Byte :=
  .opt (.seqs [.one (· == delimiter), .group n (.star p)])

/-- `(?:\/(…*))?(?:\?(…*))?(?:#(…*))?`. -/
def resourceRegexes : List (Regex Byte) :=
  [partRegex 47 4 isPathChar, partRegex 63 5 isQueryChar, partRegex 35 6 isQueryChar]

/-- `normal_url_regex`. -/
def normalUrlRegex : Regex Byte :=
  .seqs ([schemeRegex, .lit (bytes "//"), .group 2 (.star isHostChar), portRegex] ++
    resourceRegexes)

/-- `ipv6_url_regex`. -/
def ipv6UrlRegex : Regex Byte :=
  .seqs ([schemeRegex, .lit (bytes "//["), .group 2 (.star isIpv6Char), .lit (bytes "]"),
    portRegex] ++ resourceRegexes)

/-! ## The class -/

structure Url where
  scheme : Bytes := []
  host : Bytes := []
  port : Bytes := []
  path : Bytes := []
  query : Bytes := []
  fragment : Bytes := []
  deriving DecidableEq

namespace Url

/-- `Url::Url(url_string)`. -/
def parse (urlString : Bytes) : Except Exn Url :=
  match (normalUrlRegex.fullMatch urlString).or (ipv6UrlRegex.fullMatch urlString) with
  | some matched =>
    .ok
      { scheme := matched 1
        host := matched 2
        port := matched 3
        path := matched 4
        query := matched 5
        fragment := matched 6 }
  | none => .error (.runtimeError "Invalid URL")

/-- `Url::resource()`. -/
def resource (url : Url) : Bytes :=
  bytes "/" ++ url.path ++ (if url.query ≠ [] then bytes "?" ++ url.query else []) ++
    (if url.fragment ≠ [] then bytes "#" ++ url.fragment else [])

/-- `Url::string()`. -/
def string (url : Url) : Bytes :=
  (if url.scheme ≠ [] then url.scheme ++ bytes ":" else []) ++ bytes "//" ++ url.host ++
    (if url.port ≠ [] then bytes ":" ++ url.port else []) ++ url.resource

end Url

end Cld

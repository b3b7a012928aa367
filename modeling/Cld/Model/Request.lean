import Cld.Model.Basic

/-!
# Requests

`http::Request` as far as a download uses it: the headers, the assignment `req["Range"] = …`
and the serialisation that a worker sends.  Its construction from a URL and the options
belongs to the redirect loop.
-/

namespace Cld

open Framework

structure Request where
  method : Bytes
  resource : Bytes
  headers : StringMap := []
  body : Bytes := []

namespace Request

def kHttpVersion : Bytes := bytes "1.1"

def crlf : Bytes := [CR, LF]

/-- `request[header] = value`. -/
def set (r : Request) (header : String) (value : Bytes) : Request :=
  { r with headers := SortedMap.assign bytesLt (bytes header) value r.headers }

def getNonBody (r : Request) : Bytes :=
  r.method ++ bytes " " ++ r.resource ++ bytes " HTTP/" ++ kHttpVersion ++ crlf ++
    r.headers.flatMap (fun h => h.1 ++ bytes ": " ++ h.2 ++ crlf) ++ crlf

def request (r : Request) : Bytes := r.getNonBody ++ r.body

end Request

/-- `std::to_string` of an `off_t`. -/
def toDecimal (n : ℤ) : Bytes := bytes (toString n)

/-- The value of the `Range` header for the fragment `[begin, end_)`. -/
def rangeValue (begin end_ : ℤ) : Bytes :=
  bytes "bytes=" ++ toDecimal begin ++ bytes "-" ++ toDecimal end_

end Cld

/-! Requests and responses of HTTP, as far as an index on a server needs them. -/

namespace DualStore.Http

inductive Method where
  | post
  | delete
  deriving DecidableEq, Repr

structure Request where
  method : Method
  url : String
  contentType : Option String := none
  accept : String := "*/*"
  body : String := ""
  deriving DecidableEq, Repr

structure Response where
  status : Nat
  body : String
  deriving DecidableEq, Repr

namespace Response

/-- The server refuses the request or fails. -/
def isError (r : Response) : Bool := 400 ≤ r.status && r.status < 600

/-- What comes with a response. These two statuses are never followed by a body. -/
def content (r : Response) : String := if r.status = 204 ∨ r.status = 304 then "" else r.body

/-- The content as text. A mark of byte order at its start does not count. -/
def text (r : Response) : String :=
  match r.content.toList with
  | '\ufeff' :: cs => String.ofList cs
  | _ => r.content

end Response

def reason? : Nat → Option String
  | 400 => some "Bad Request"
  | 401 => some "Unauthorized"
  | 402 => some "Payment Required"
  | 403 => some "Forbidden"
  | 404 => some "Not Found"
  | 405 => some "Method Not Allowed"
  | 406 => some "Not Acceptable"
  | 407 => some "Proxy Authentication Required"
  | 408 => some "Request Timeout"
  | 409 => some "Conflict"
  | 410 => some "Gone"
  | 411 => some "Length Required"
  | 412 => some "Precondition Failed"
  | 413 => some "Payload Too Large"
  | 414 => some "URI Too Long"
  | 415 => some "Unsupported Media Type"
  | 416 => some "Range Not Satisfiable"
  | 417 => some "Expectation Failed"
  | 418 => some "I'm a teapot"
  | 421 => some "Misdirected Request"
  | 422 => some "Unprocessable Entity"
  | 423 => some "Locked"
  | 424 => some "Failed Dependency"
  | 425 => some "Too Early"
  | 426 => some "Upgrade Required"
  | 428 => some "Precondition Required"
  | 429 => some "Too Many Requests"
  | 431 => some "Request Header Fields Too Large"
  | 451 => some "Unavailable For Legal Reasons"
  | 500 => some "Internal Server Error"
  | 501 => some "Not Implemented"
  | 502 => some "Bad Gateway"
  | 503 => some "Service Unavailable"
  | 504 => some "Gateway Timeout"
  | 505 => some "HTTP Version Not Supported"
  | 506 => some "Variant Also Negotiates"
  | 507 => some "Insufficient Storage"
  | 508 => some "Loop Detected"
  | 510 => some "Not Extended"
  | 511 => some "Network Authentication Required"
  | _ => none

/-- The status of an error as messages show it. -/
def statusText (status : Nat) : String :=
  s!"{status} {(reason? status).getD unknown}"
where
  unknown : String := "<unknown status code>"

end DualStore.Http

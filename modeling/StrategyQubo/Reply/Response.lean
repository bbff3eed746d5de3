import StrategyQubo.Json.Parse
import StrategyQubo.Reply.Fault
import StrategyQubo.Text.Blank

namespace StrategyQubo

/-! # Responses

What the solver endpoint answers: JSON with a status of success, or the reason
of a rejection.
-/

structure Response where
  status : Nat
  body : String

/-- The usual phrase for a status; there is none for an unknown one. -/
def reasonPhrase (status : Nat) : String :=
  match status with
  | 100 => "Continue"
  | 101 => "Switching Protocols"
  | 102 => "Processing"
  | 103 => "Early Hints"
  | 200 => "OK"
  | 201 => "Created"
  | 202 => "Accepted"
  | 203 => "Non Authoritative Information"
  | 204 => "No Content"
  | 205 => "Reset Content"
  | 206 => "Partial Content"
  | 207 => "Multi-Status"
  | 208 => "Already Reported"
  | 226 => "IM Used"
  | 300 => "Multiple Choices"
  | 301 => "Moved Permanently"
  | 302 => "Found"
  | 303 => "See Other"
  | 304 => "Not Modified"
  | 305 => "Use Proxy"
  | 307 => "Temporary Redirect"
  | 308 => "Permanent Redirect"
  | 400 => "Bad Request"
  | 401 => "Unauthorized"
  | 402 => "Payment Required"
  | 403 => "Forbidden"
  | 404 => "Not Found"
  | 405 => "Method Not Allowed"
  | 406 => "Not Acceptable"
  | 407 => "Proxy Authentication Required"
  | 408 => "Request Timeout"
  | 409 => "Conflict"
  | 410 => "Gone"
  | 411 => "Length Required"
  | 412 => "Precondition Failed"
  | 413 => "Payload Too Large"
  | 414 => "URI Too Long"
  | 415 => "Unsupported Media Type"
  | 416 => "Range Not Satisfiable"
  | 417 => "Expectation Failed"
  | 418 => "I'm a teapot"
  | 421 => "Misdirected Request"
  | 422 => "Unprocessable Entity"
  | 423 => "Locked"
  | 424 => "Failed Dependency"
  | 425 => "Too Early"
  | 426 => "Upgrade Required"
  | 428 => "Precondition Required"
  | 429 => "Too Many Requests"
  | 431 => "Request Header Fields Too Large"
  | 451 => "Unavailable For Legal Reasons"
  | 500 => "Internal Server Error"
  | 501 => "Not Implemented"
  | 502 => "Bad Gateway"
  | 503 => "Service Unavailable"
  | 504 => "Gateway Timeout"
  | 505 => "HTTP Version Not Supported"
  | 506 => "Variant Also Negotiates"
  | 507 => "Insufficient Storage"
  | 508 => "Loop Detected"
  | 510 => "Not Extended"
  | 511 => "Network Authentication Required"
  | _ => ""

namespace Response

def isSuccess (r : Response) : Bool :=
  200 ≤ r.status && r.status < 300

/-- The body without a byte order mark in front. -/
def text (r : Response) : String :=
  match r.body.toList with
  | '\uFEFF' :: rest => String.ofList rest
  | _ => r.body

/-- What a body says about an error: its field `error`, if it is an object that
    has one, or else the body itself. -/
def errorText (body : String) : String :=
  match Json.parseStrict? body with
  | some (.object fields) =>
      match fields.lookup (some "error") with
      | some (.string message) => message
      | some .null => body
      | some value => value.compact
      | none => body
  | _ => body

/-- The reason of a rejection; a blank body leaves it to the status. -/
def rejection (r : Response) : String :=
  if (Text.trim r.text).isEmpty then reasonPhrase r.status else errorText r.text

def json (r : Response) : Except SubmitFault Json :=
  if r.isSuccess then
    match Json.parseStrict? r.text with
    | some value => .ok value
    | none => .error .notJson
  else
    .error (.rejected r.status r.rejection)

end Response

end StrategyQubo

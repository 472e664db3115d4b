import HostArduino.Http.Body

namespace HostArduino.http

/-- The number in a status line, as the `int` it is stored in, or an error. -/
def statusCode (status : Text) : Int :=
  if !startsWith status (ascii "HTTP/") then HTTPC_ERROR_NO_HTTP_SERVER
  else
    match indexOf status ' '.toUInt8 with
    | none => HTTPC_ERROR_NO_HTTP_SERVER
    | some sp1 =>
      let code_str := match indexOfFrom status ' '.toUInt8 (sp1 + 1) with
        | some sp2 => substring status (sp1 + 1) sp2
        | none => substringFrom status (sp1 + 1)
      let code := (toInt code_str).bmod (2 ^ 32)
      if code ≤ 0 then HTTPC_ERROR_NO_HTTP_SERVER else code

/-- What the header lines of a response say about it. -/
structure ResponseHead where
  content_length_ : Int
  chunked_ : Bool
  location_ : Text
  deriving DecidableEq

namespace ResponseHead

def empty : ResponseHead where
  content_length_ := -1
  chunked_ := false
  location_ := []

def addLine (head : ResponseHead) (line : Text) : ResponseHead :=
  match indexOf line ':'.toUInt8 with
  | none => head
  | some colon =>
    let name := substring line 0 colon
    let value := trim (substringFrom line (colon + 1))
    if equalsIgnoreCase name (ascii "Content-Length") then
      { head with content_length_ := toInt value }
    else if equalsIgnoreCase name (ascii "Transfer-Encoding") then
      if (indexOfText (toLowerCase value) (ascii "chunked")).isSome then
        { head with chunked_ := true }
      else head
    else if equalsIgnoreCase name (ascii "Location") then { head with location_ := value }
    else head

end ResponseHead

namespace Client

/-- The header lines of a response, up to a blank one. -/
def readHeaderLines (timeout_ms : UInt16) (c : Client) (head : ResponseHead) : ResponseHead × Client :=
  let line := (readHTTPLine timeout_ms c).1
  let c' := (readHTTPLine timeout_ms c).2
  if line.length = 0 then (head, c')
  else readHeaderLines timeout_ms c' (head.addLine line)
termination_by c.unread.length
decreasing_by
  have hlength := length_readHTTPLine_le timeout_ms c
  rename_i hnonempty
  change ¬(readHTTPLine timeout_ms c).1.length = 0 at hnonempty
  omega

/-- `readResponseHead` on a client: the status or an error, and what it sets. -/
def readResponseHead (timeout_ms : UInt16) (c : Client) : Int × ResponseHead × Client :=
  let status := (readHTTPLine timeout_ms c).1
  let c' := (readHTTPLine timeout_ms c).2
  let code := statusCode status
  if code ≤ 0 then (code, ResponseHead.empty, c')
  else (code, readHeaderLines timeout_ms c' ResponseHead.empty)

end Client

namespace HTTPClient

def readResponseHead (h : HTTPClient) : Int × HTTPClient :=
  let h := { h with content_length_ := -1, chunked_ := false, location_ := [] }
  match h.client_ with
  | none => (HTTPC_ERROR_NO_HTTP_SERVER, h)
  | some c =>
    let result := Client.readResponseHead h.timeout_ms_ c
    let head := result.2.1
    (result.1,
      { h with
        client_ := some result.2.2
        content_length_ := head.content_length_
        chunked_ := head.chunked_
        location_ := head.location_ })

end HTTPClient

end HostArduino.http

import HostArduino.Http.Client

namespace HostArduino.http

inductive FollowRedirects where
  | HTTPC_DISABLE_FOLLOW_REDIRECTS
  | HTTPC_STRICT_FOLLOW_REDIRECTS
  | HTTPC_FORCE_FOLLOW_REDIRECTS
  deriving DecidableEq, Repr

def HTTPC_ERROR_CONNECTION_REFUSED : Int := -1
def HTTPC_ERROR_SEND_HEADER_FAILED : Int := -2
def HTTPC_ERROR_SEND_PAYLOAD_FAILED : Int := -3
def HTTPC_ERROR_NOT_CONNECTED : Int := -4
def HTTPC_ERROR_CONNECTION_LOST : Int := -5
def HTTPC_ERROR_NO_HTTP_SERVER : Int := -7

structure Header where
  name : Text
  value : Text
  deriving DecidableEq

/-- `owned_client_` says whether the client `client_` points to is the internal one. -/
structure HTTPClient where
  owned_client_ : Bool
  client_ : Option Client
  host_ : Text
  uri_ : Text
  port_ : UInt16
  use_https_ : Bool
  user_agent_ : Text
  request_headers_ : List Header
  timeout_ms_ : UInt16
  content_length_ : Int
  chunked_ : Bool
  location_ : Text
  follow_mode_ : FollowRedirects
  redirect_limit_ : UInt16
  deriving DecidableEq

namespace HTTPClient

def initial : HTTPClient where
  owned_client_ := false
  client_ := none
  host_ := []
  uri_ := []
  port_ := 80
  use_https_ := false
  user_agent_ := []
  request_headers_ := []
  timeout_ms_ := 5000
  content_length_ := -1
  chunked_ := false
  location_ := []
  follow_mode_ := .HTTPC_DISABLE_FOLLOW_REDIRECTS
  redirect_limit_ := 10

def setTimeout (h : HTTPClient) (timeout_ms : UInt16) : HTTPClient :=
  { h with timeout_ms_ := timeout_ms }

def setUserAgent (h : HTTPClient) (ua : Text) : HTTPClient :=
  { h with user_agent_ := ua }

def setFollowRedirects (h : HTTPClient) (mode : FollowRedirects) : HTTPClient :=
  { h with follow_mode_ := mode }

def setRedirectLimit (h : HTTPClient) (limit : UInt16) : HTTPClient :=
  { h with redirect_limit_ := limit }

/-- The loop of `addHeader` that replaces the first header of the name, if there is one. -/
def replaceHeader (name value : Text) : List Header → Option (List Header)
  | [] => none
  | header :: headers =>
    if equalsIgnoreCase header.name name then some ({ header with value } :: headers)
    else (replaceHeader name value headers).map (header :: ·)

def addHeader (h : HTTPClient) (name value : Text) (first replace : Bool) : HTTPClient :=
  match if replace then replaceHeader name value h.request_headers_ else none with
  | some headers => { h with request_headers_ := headers }
  | none =>
    if first then { h with request_headers_ := { name, value } :: h.request_headers_ }
    else { h with request_headers_ := h.request_headers_ ++ [{ name, value }] }

/-- `none` is a null pointer. -/
def setAuthorization (h : HTTPClient) (auth : Option Text) : HTTPClient :=
  match auth with
  | some (c :: rest) => h.addHeader (ascii "Authorization") (c :: rest) true true
  | _ => h

end HTTPClient

end HostArduino.http

import McritSimilarity.Config
import McritSimilarity.Errors
import McritSimilarity.Python.Url

/-!
# The MCRIT client

The checks of `McritClient.__init__`, which decide whether a server URL is used at all and whether a
token may go to it.
-/

set_option autoImplicit false

namespace McritSimilarity

open Python

def loopbackHosts : List String := ["127.0.0.1", "localhost", "::1", "[::1]"]

/-- `is_loopback`; parsing a malformed URL raises `ValueError`. -/
def isLoopback (url : String) : Except PyError Bool :=
  match urlparse url with
  | none => .error (.builtin .valueError)
  | some parsed => .ok (match parsed.hostname with
    | none => false
    | some host => loopbackHosts.contains host)

/-- `_normalize_server`. -/
def clientServer (url : String) : Except PyError String :=
  let url := strip url
  if url = "" then .error (.mcrit .unavailable "MCRIT server URL is empty")
  else .ok (if url.toList.getLast? = some '/' then url else url ++ "/")

structure McritClient where
  mcritServer : String
  apitoken : Option String
  username : Option String
  timeout : Option ℤ
  deriving DecidableEq, Repr

/-- A header value that is sent: neither absent nor empty. -/
def nonEmpty (value : Option String) : Option String :=
  match value with
  | some "" => none
  | other => other

/-- `repr` of a text without quotes, backslashes and control characters. -/
def reprText (s : String) : String := "'" ++ s ++ "'"

/-- The normalized URL in its parts, when it is an HTTP URL with a host. -/
def parsedServer (server mcritServer : String) : Except PyError ParseResult :=
  let invalid : PyError := .mcrit .unavailable
    ("MCRIT server URL must start with http:// or https://, got " ++ reprText server)
  match urlparse mcritServer with
  | none => .error invalid
  | some parsed =>
    if ¬ (parsed.scheme = "http".toList ∨ parsed.scheme = "https".toList) ∨ parsed.hostname = none
    then .error invalid else .ok parsed

def checkUserinfo (parsed : ParseResult) : Except PyError Unit :=
  if parsed.userinfo.1 ≠ [] ∨ parsed.userinfo.2 ≠ [] then
    .error (.mcrit .auth
      "Do not put credentials in the server URL; use the Username and API token settings.")
  else .ok ()

def checkToken (mcritServer : String) (parsed : ParseResult) (apitoken : Option String) :
    Except PyError Unit := do
  let loopback ← isLoopback mcritServer
  if apitoken.isSome ∧ parsed.scheme = "http".toList ∧ ¬ loopback then
    .error (.mcrit .auth ("Cannot transmit API token over unencrypted HTTP to non-loopback host '" ++
      parsed.hostname.getD "" ++ "'. Use HTTPS to protect credentials."))
  else .ok ()

/-- `McritClient(mcrit_server, apitoken, username, timeout)`. -/
def newClient (server : String) (apitoken username : Option String) (timeout : Option ℤ) :
    Except PyError McritClient := do
  let mcritServer ← clientServer server
  let parsed ← parsedServer server mcritServer
  checkUserinfo parsed
  checkToken mcritServer parsed (nonEmpty apitoken)
  return {
    mcritServer := mcritServer
    apitoken := nonEmpty apitoken
    username := nonEmpty username
    timeout := timeout.bind fun t => if 0 < t then some t else none }

end McritSimilarity

import McritSimilarity.Python.Text

/-!
# URL parsing

`urllib.parse.urlparse` as far as the plugin reads its result: the scheme, the network location and
from it the host name and the credentials.  `none` is where parsing raises `ValueError`.
-/

set_option autoImplicit false

namespace Python

/-- The parts of a parsed URL. -/
structure ParseResult where
  scheme : List Char
  netloc : List Char
  rest : List Char
  deriving DecidableEq, Repr

def isSchemeChar (c : Char) : Bool :=
  c.isAlpha || c.isDigit || c = '+' || c = '-' || c = '.'

/-- The scheme before the first colon, when what is there can be a scheme. -/
def splitScheme (url : List Char) : List Char × List Char :=
  match partition ':' url with
  | (before, found, after) =>
    match before with
    | c :: _ => if found && c.isAlpha && before.all isSchemeChar then (before.map lowerChar, after)
        else ([], url)
    | [] => ([], url)

/-- Characters whose compatibility form holds one of `/?#@:`. -/
def hidesDelimiter (c : Char) : Bool :=
  [0x2047, 0x2048, 0x2049, 0x2100, 0x2101, 0x2105, 0x2106, 0x2a74, 0xfe13, 0xfe16, 0xfe55, 0xfe56,
    0xfe5f, 0xfe6b, 0xff03, 0xff0f, 0xff1a, 0xff1f, 0xff20].contains c.toNat

/-! ## Bracketed hosts -/

def isHexDigit (c : Char) : Bool :=
  c.isDigit || ('a' ≤ c && c ≤ 'f') || ('A' ≤ c && c ≤ 'F')

def isOctet (s : List Char) : Bool :=
  s ≠ [] && s.all Char.isDigit && s.length ≤ 3 && (s.length = 1 || s.head? ≠ some '0') &&
    (s.foldl (fun n c => n * 10 + (c.toNat - 48)) 0) ≤ 255

def isIPv4 (s : List Char) : Bool :=
  let parts := split '.' s
  parts.length = 4 && parts.all isOctet

def isHextet (s : List Char) : Bool := s ≠ [] && s.all isHexDigit && s.length ≤ 4

/-- `IPv6Address._ip_int_from_string` succeeds. -/
def isIPv6Number (s : List Char) : Bool :=
  let parts := split ':' s
  let last := parts.getLastD []
  let dotted := last.contains '.'
  -- An IPv4 suffix stands for two groups.
  let groups := if dotted then parts.dropLast ++ [['0'], ['0']] else parts
  let inner := groups.tail.dropLast
  let skips := (inner.filter (· = [])).length
  decide (3 ≤ parts.length) && (!dotted || isIPv4 last) && decide (groups.length ≤ 9) &&
    (if skips = 0 then decide (groups.length = 8) && groups.all isHextet
     else
      let skip := inner.findIdx (· = []) + 1
      let hi := groups.take skip
      let lo := groups.drop (skip + 1)
      let hi := if hi = [[]] then [] else hi
      let lo := if lo = [[]] then [] else lo
      decide (skips = 1) && hi.all isHextet && lo.all isHextet && decide (hi.length + lo.length < 8))

/-- `ipaddress.ip_address` accepts the text and it is no IPv4 address. -/
def isIPv6 (s : List Char) : Bool :=
  let (number, percent, zone) := partition '%' s
  !s.contains '/' && isIPv6Number number && (!percent || (zone ≠ [] && !zone.contains '%'))

/-- `v[hex]+.[any]+`. -/
def isIPvFuture (s : List Char) : Bool :=
  let (version, dotted, address) := partition '.' (s.drop 1)
  version ≠ [] && version.all isHexDigit && dotted && address ≠ [] && !address.contains '\n'

def checkBracketedHost (host : List Char) : Bool :=
  if host.head? = some 'v' then isIPvFuture host else isIPv6 host

def checkBracketedNetloc (netloc : List Char) : Bool :=
  let (_, _, hostAndPort) := rpartition '@' netloc
  let (before, bracket, bracketed) := partition '[' hostAndPort
  if bracket then
    let (host, _, port) := partition ']' bracketed
    before = [] && (port = [] || port.head? = some ':') && checkBracketedHost host
  else checkBracketedHost (partition ':' hostAndPort).1

/-! ## Splitting -/

def urlparse (url : String) : Option ParseResult :=
  let url := (url.toList.dropWhile fun c => decide (c.toNat ≤ 32)).filter fun c =>
    c ≠ '\t' && c ≠ '\r' && c ≠ '\n'
  let (scheme, url) := splitScheme url
  match url with
  | '/' :: '/' :: rest =>
    let netloc := rest.takeWhile fun c => c ≠ '/' && c ≠ '?' && c ≠ '#'
    let opened := netloc.contains '['
    let closed := netloc.contains ']'
    if opened != closed then none
    else if opened && closed && !checkBracketedNetloc netloc then none
    else if netloc.any hidesDelimiter then none
    else some ⟨scheme, netloc, rest.drop netloc.length⟩
  | _ => some ⟨scheme, [], url⟩

namespace ParseResult

/-- The host of the network location, without brackets and port. -/
def hostinfo (p : ParseResult) : List Char :=
  let (_, _, hostinfo) := rpartition '@' p.netloc
  let (_, bracket, bracketed) := partition '[' hostinfo
  if bracket then (partition ']' bracketed).1 else (partition ':' hostinfo).1

/-- `.hostname`: lower case up to a zone; `none` for an empty host. -/
def hostname (p : ParseResult) : Option String :=
  match p.hostinfo with
  | [] => none
  | host =>
    let (name, percent, zone) := partition '%' host
    some (String.ofList (name.map lowerChar ++ if percent then '%' :: zone else []))

/-- `.username` and `.password`, each empty when absent. -/
def userinfo (p : ParseResult) : List Char × List Char :=
  let (userinfo, found, _) := rpartition '@' p.netloc
  if found then
    let (username, _, password) := partition ':' userinfo
    (username, password)
  else ([], [])

end ParseResult

example : (urlparse "http://[::1]:8000/").map ParseResult.hostname = some (some "::1") := by decide

example : urlparse "http://[::1/" = none := by decide

example : (urlparse "https://user@Mcrit.Example/api/").map ParseResult.hostname =
    some (some "mcrit.example") := by decide

end Python

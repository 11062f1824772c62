import Mathlib.Tactic.SplitIfs
import McritSimilarity.Python.Text

/-!
# Provider configuration

`ProviderConfig` and its parsing from setting values (`configFromValues`): every field falls back to
the given defaults when its value is missing or cannot be read.
-/

set_option autoImplicit false

namespace McritSimilarity

open Python

/-- `BUILTIN`. -/
def builtinServer : String := "builtin"

def isBuiltin (server : String) : Bool := lower (strip server) = builtinServer

def defaultServer : String := builtinServer
def defaultTimeout : ℤ := 30
def defaultMinhashThreshold : ℤ := 50
def defaultPichashSize : ℤ := 10
def defaultBandMatches : ℤ := 2
def defaultMaxResults : ℤ := 5

/-- `NUMBER_RANGES`: the inclusive minimum and maximum of each numeric setting. -/
def numberRanges : List (String × ℤ × ℤ) :=
  [("timeout", 1, 3600), ("minhash_threshold", 0, 100), ("pichash_size", 0, 1000),
    ("band_matches_required", 1, 64), ("max_results", 1, 50)]

structure ProviderConfig where
  server : String := defaultServer
  username : String := ""
  apiToken : String := ""
  timeout : ℤ := defaultTimeout
  minhashThreshold : ℤ := defaultMinhashThreshold
  pichashSize : ℤ := defaultPichashSize
  bandMatchesRequired : ℤ := defaultBandMatches
  maxResults : ℤ := defaultMaxResults
  includeLibrary : Bool := true
  persistSamples : Bool := true
  applyCorpusLabels : Bool := false
  queryPerNode : Bool := false
  family : String := ""
  version : String := ""
  builtinCorpus : String := ""
  deriving DecidableEq, Repr

/-- The values a setting can have; `none` is a value that is not there. -/
inductive Value where
  | none
  | bool (b : Bool)
  | int (n : ℤ)
  | str (s : String)
  deriving DecidableEq, Repr

def clampInt (minimum maximum number : ℤ) : ℤ := max minimum (min maximum number)

def asInt (value : Value) (default minimum maximum : ℤ) : ℤ :=
  match value with
  | .int n => clampInt minimum maximum n
  | .str s =>
    match intOfText s with
    | some n => clampInt minimum maximum n
    | .none => default
  | .bool _ => default
  | .none => default

def asBool (value : Value) (default : Bool) : Bool :=
  match value with
  | .bool b => b
  | .str s =>
    let lowered := lower (strip s)
    if lowered = "true" ∨ lowered = "1" ∨ lowered = "yes" then true
    else if lowered = "false" ∨ lowered = "0" ∨ lowered = "no" then false
    else default
  | .int n => n ≠ 0
  | .none => default

def asStr (value : Value) (default : String := "") : String :=
  match value with
  | .none => default
  | .str s => s
  | .int n => toString n
  | .bool b => if b then "True" else "False"

/-- The limits of a numeric setting. -/
def asNumber (key : String) (value : Value) (default : ℤ) : ℤ :=
  match numberRanges.lookup key with
  | some (minimum, maximum) => asInt value default minimum maximum
  | Option.none => default

/-- The server of a configuration: `builtin`, or a URL with a slash at its end. -/
def normalizeServer (server : String) : String :=
  if isBuiltin server then builtinServer
  else if server.toList.getLast? = some '/' then server
  else server ++ "/"

def configFromValues (values : String → Value) (base : ProviderConfig := {}) : ProviderConfig :=
  let server := strip (asStr (values "server") base.server)
  { server := normalizeServer (if server = "" then base.server else server)
    username := strip (asStr (values "username") base.username)
    apiToken := strip (asStr (values "api_token") base.apiToken)
    timeout := asNumber "timeout" (values "timeout") base.timeout
    minhashThreshold := asNumber "minhash_threshold" (values "minhash_threshold") base.minhashThreshold
    pichashSize := asNumber "pichash_size" (values "pichash_size") base.pichashSize
    bandMatchesRequired :=
      asNumber "band_matches_required" (values "band_matches_required") base.bandMatchesRequired
    maxResults := asNumber "max_results" (values "max_results") base.maxResults
    includeLibrary := asBool (values "include_library") base.includeLibrary
    persistSamples := asBool (values "persist_samples") base.persistSamples
    applyCorpusLabels := asBool (values "apply_corpus_labels") base.applyCorpusLabels
    queryPerNode := asBool (values "query_per_node") base.queryPerNode
    family := strip (asStr (values "family") base.family)
    version := strip (asStr (values "version") base.version)
    builtinCorpus := strip (asStr (values "builtin_corpus") base.builtinCorpus) }

/-- A setting that is a boolean is taken as it is. -/
@[simp] theorem asBool_bool (b default : Bool) : asBool (.bool b) default = b := rfl

theorem normalizeServer_ne (server : String) : normalizeServer server ≠ "" := by
  unfold normalizeServer
  split_ifs with hb hl
  · decide
  · rintro rfl
    exact absurd hl (by decide)
  · intro h
    have := congrArg String.length h
    simp at this

/-- The server of a configuration, from its value and the base. -/
def serverFrom (value : Value) (base : String) : String :=
  let server := strip (asStr value base)
  normalizeServer (if server = "" then base else server)

theorem server_configFromValues (values : String → Value) (base : ProviderConfig) :
    (configFromValues values base).server = serverFrom (values "server") base.server := by
  simp only [configFromValues, serverFrom]

/-- A configuration never has an empty server. -/
theorem configFromValues_server_ne (values : String → Value) (base : ProviderConfig) :
    (configFromValues values base).server ≠ "" := by
  simp only [configFromValues]
  apply normalizeServer_ne

end McritSimilarity

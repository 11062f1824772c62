import McritSimilarity.Config
import McritSimilarity.Errors
import McritSimilarity.Client

/-!
# Settings

The global settings, and the settings object of one session: `defaultProviderSettings` registers its
defaults once, from the global server of that moment, and `configFromSettings` reads it whenever a
configuration is wanted.  A registered setting reads as the value the user set, else as its
registered default (`SettingsObj.read`).
-/

set_option autoImplicit false

namespace McritSimilarity

open Python

/-- The global settings; a `none` is a setting that is not registered.  `token` is what
`_migrate_token` comes back with. -/
structure GlobalSettings where
  server : Option String
  username : Option String
  token : Except PyError String
  timeout : Option ℤ
  builtinCorpus : Option String

def globalDefaults (g : GlobalSettings) : Except PyError ProviderConfig := do
  let token ← g.token
  return configFromValues fun key =>
    if key = "server" then .str (g.server.getD defaultServer)
    else if key = "username" then .str (g.username.getD "")
    else if key = "api_token" then .str token
    else if key = "timeout" then .int (g.timeout.getD defaultTimeout)
    else if key = "builtin_corpus" then .str (g.builtinCorpus.getD "")
    else .none

/-- A settings object: registered defaults, and the values its user has set. -/
structure SettingsObj where
  registered : String → Option Value
  user : String → Option Value

namespace SettingsObj

def contains (s : SettingsObj) (key : String) : Bool := (s.registered key).isSome

/-- `get_bool`, `get_integer` or `get_string` of a registered setting. -/
def read (s : SettingsObj) (key : String) : Value :=
  match s.user key with
  | some value => value
  | none => (s.registered key).getD .none

end SettingsObj

/-- What can happen to a setting after its registration. -/
inductive Edit where
  | set (key : String) (value : Value)
  | reset (key : String)

namespace Edit

def key : Edit → String
  | set key _ => key
  | reset key => key

def apply (s : SettingsObj) : Edit → SettingsObj
  | set key value => { s with user := fun k => if k = key then some value else s.user k }
  | reset key => { s with user := fun k => if k = key then none else s.user k }

end Edit

/-- `_PROVIDER_SCHEMA`: keys and defaults. -/
def providerSchema : List (String × Value) :=
  [("server", .str defaultServer), ("minhash_threshold", .int defaultMinhashThreshold),
    ("pichash_size", .int defaultPichashSize), ("band_matches_required", .int defaultBandMatches),
    ("max_results", .int defaultMaxResults), ("include_library", .bool true),
    ("persist_samples", .bool true), ("apply_corpus_labels", .bool false),
    ("query_per_node", .bool false), ("family", .str ""), ("version", .str "")]

/-- `is_builtin(server) or is_loopback(server)`. -/
def isLocal (server : String) : Except PyError Bool :=
  if isBuiltin server then .ok true else isLoopback server

/-- The server that `default_provider_settings` takes its defaults from. -/
def currentServer (g : GlobalSettings) : String :=
  match globalDefaults g with
  | .ok config => config.server
  | .error _ => defaultServer

def defaultProviderSettings (g : GlobalSettings) : Except PyError SettingsObj := do
  let isLocalServer ← isLocal (currentServer g)
  let dynamicDefaults : List (String × Value) :=
    [("server", .str (currentServer g)), ("persist_samples", .bool isLocalServer)]
  return {
    registered := fun key =>
      (providerSchema.lookup key).map fun default => (dynamicDefaults.lookup key).getD default
    user := fun _ => none }

def readSetting (s : SettingsObj) (key : String) (default : Value) : Value :=
  if s.contains key then s.read key else default

/-- `getattr(base, key)` for the keys of the schema. -/
def fieldValue (base : ProviderConfig) (key : String) : Value :=
  if key = "server" then .str base.server
  else if key = "minhash_threshold" then .int base.minhashThreshold
  else if key = "pichash_size" then .int base.pichashSize
  else if key = "band_matches_required" then .int base.bandMatchesRequired
  else if key = "max_results" then .int base.maxResults
  else if key = "include_library" then .bool base.includeLibrary
  else if key = "persist_samples" then .bool base.persistSamples
  else if key = "apply_corpus_labels" then .bool base.applyCorpusLabels
  else if key = "query_per_node" then .bool base.queryPerNode
  else if key = "family" then .str base.family
  else if key = "version" then .str base.version
  else .none

def configFromSettings (s : SettingsObj) (base : ProviderConfig) : ProviderConfig :=
  configFromValues (fun key =>
    if (providerSchema.lookup key).isSome then readSetting s key (fieldValue base key) else .none)
    base

theorem configFromSettings_server_ne (s : SettingsObj) (base : ProviderConfig) :
    (configFromSettings s base).server ≠ "" :=
  configFromValues_server_ne _ _

end McritSimilarity

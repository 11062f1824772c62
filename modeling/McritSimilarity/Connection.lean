import McritSimilarity.Client
import McritSimilarity.Lib.Prog

/-!
# Connections

`resolve` replaces the built-in server by the URL it listens on, which starts the server; `clientFor`
is the client of a resolved configuration.
-/

set_option autoImplicit false

namespace McritSimilarity

open Python

/-- `Endpoint`: where the built-in server listens, and the token it asks for. -/
structure Endpoint where
  url : String
  token : String
  deriving DecidableEq, Repr

/-- A built-in configuration with the endpoint of the running server. -/
def withEndpoint (config : ProviderConfig) (endpoint : Endpoint) : ProviderConfig :=
  { config with
    server := endpoint.url
    apiToken := endpoint.token
    username := ""
    persistSamples := true
    timeout := 0 }

/-- `resolve`, over the operation `endpoint` that starts the built-in server. -/
@[irreducible] def resolve {I : Interface} (endpoint : String → Prog I PyError Endpoint) (config : ProviderConfig) :
    Prog I PyError ProviderConfig :=
  if isBuiltin config.server then do
    let started ← endpoint config.builtinCorpus
    return withEndpoint config started
  else pure config

/-- `value or None`. -/
def textOrNone (value : String) : Option String := if value = "" then none else some value

def clientFor (config : ProviderConfig) : Except PyError McritClient :=
  newClient config.server (textOrNone config.apiToken) (textOrNone config.username)
    (some config.timeout)

theorem resolve_remote {I : Interface} {endpoint : String → Prog I PyError Endpoint}
    {config : ProviderConfig} (h : isBuiltin config.server = false) :
    resolve endpoint config = pure config := by
  unfold resolve
  simp [h]

theorem resolve_builtin {I : Interface} {endpoint : String → Prog I PyError Endpoint}
    {config : ProviderConfig} (h : isBuiltin config.server = true) :
    resolve endpoint config = endpoint config.builtinCorpus >>= fun started =>
      pure (withEndpoint config started) := by
  unfold resolve
  simp [h]

/-- `resolve` calls what starting the built-in server calls. -/
theorem onlyCalls_resolve {I : Interface} {endpoint : String → Prog I PyError Endpoint}
    {P : I.Op → Prop} (h : ∀ corpus, (endpoint corpus).OnlyCalls P) (config : ProviderConfig) :
    (resolve endpoint config).OnlyCalls P := by
  cases hb : isBuiltin config.server with
  | false =>
    rw [resolve_remote hb]
    trivial
  | true =>
    rw [resolve_builtin hb]
    exact .bind (h _) fun _ => trivial

/-- The checks of the constructor, for a client that it returns. -/
theorem newClient_cases {server : String} {apitoken username : Option String} {timeout : Option ℤ}
    {client : McritClient} (h : newClient server apitoken username timeout = .ok client) :
    ∃ parsed, clientServer server = .ok client.mcritServer ∧
      parsedServer server client.mcritServer = .ok parsed ∧ checkUserinfo parsed = .ok () ∧
        checkToken client.mcritServer parsed client.apitoken = .ok () := by
  unfold newClient at h
  rcases hserver : clientServer server with e | mcritServer
  · rw [hserver] at h
    cases h
  rw [hserver, ok_bind] at h
  rcases hparsed : parsedServer server mcritServer with e | parsed
  · rw [hparsed] at h
    cases h
  rw [hparsed, ok_bind] at h
  rcases huserinfo : checkUserinfo parsed with e | _
  · rw [huserinfo] at h
    cases h
  rw [huserinfo, ok_bind] at h
  rcases htoken : checkToken mcritServer parsed (nonEmpty apitoken) with e | _
  · rw [htoken] at h
    cases h
  rw [htoken, ok_bind] at h
  cases h
  exact ⟨parsed, rfl, hparsed, huserinfo, htoken⟩

/-- A client uses the normalized URL of its server. -/
theorem clientServer_of_newClient {server : String} {apitoken username : Option String}
    {timeout : Option ℤ} {client : McritClient}
    (h : newClient server apitoken username timeout = .ok client) :
    clientServer server = .ok client.mcritServer := by
  obtain ⟨parsed, hserver, -⟩ := newClient_cases h
  exact hserver

/-! ## A remote server -/

def remoteServer : String := "https://mcrit.example/"

theorem isLoopback_remoteServer : isLoopback remoteServer = .ok false := by decide

theorem clientServer_remoteServer : clientServer remoteServer = .ok remoteServer := by decide

def remoteParsed : ParseResult := ⟨"https".toList, "mcrit.example".toList, "/".toList⟩

theorem parsedServer_remoteServer : parsedServer remoteServer remoteServer = .ok remoteParsed := by
  decide

theorem newClient_remoteServer (apitoken username : Option String) (timeout : Option ℤ) :
    ∃ client, newClient remoteServer apitoken username timeout = .ok client := by
  have huserinfo : checkUserinfo remoteParsed = .ok () := by decide
  have htoken : checkToken remoteServer remoteParsed (nonEmpty apitoken) = .ok () := by
    have hhttp : remoteParsed.scheme ≠ "http".toList := by decide
    unfold checkToken
    rw [isLoopback_remoteServer, ok_bind, if_neg fun h => hhttp h.2.1]
  unfold newClient
  rw [clientServer_remoteServer, ok_bind, parsedServer_remoteServer, ok_bind, huserinfo, ok_bind,
    htoken, ok_bind]
  exact ⟨_, rfl⟩

theorem isBuiltin_remoteServer {config : ProviderConfig} (h : config.server = remoteServer) :
    isBuiltin config.server = false := by
  rw [h]
  decide

theorem clientFor_remoteServer {config : ProviderConfig} (h : config.server = remoteServer) :
    ∃ client, clientFor config = .ok client := by
  unfold clientFor
  rw [h]
  exact newClient_remoteServer _ _ _

end McritSimilarity

import McritSimilarity.Lib.Machine
import McritSimilarity.Lib.Pool
import McritSimilarity.Provider
import McritSimilarity.Python.Path

/-!
# The built-in server and the commands

The process as far as the built-in server goes: `endpoint` with its lock, the commands that test the
connection and import or export a corpus, and the edge visits.  Each command and each visit is a
thread; `processStep` interleaves them.  The block of `endpoint` under its lock is one operation:
`unloaded_corpus`, its only effect seen without the lock, is read when a command is issued, and a
command that reads it during the block could as well have been issued before.
-/

set_option autoImplicit false

namespace McritSimilarity

open Python

/-! ## `endpoint` -/

/-- The module variables of `builtin`. -/
structure Builtin where
  endpoint : Option Endpoint := none
  unloadedCorpus : String := ""
  deriving DecidableEq, Repr

/-- What a call of `endpoint` returns, and whether it failed to load a corpus. -/
structure EndpointAnswer where
  result : Except PyError Endpoint
  loadFailed : Bool

/-- `endpoint`, when `_start` comes to `started` and importing the corpus comes to `loaded`. -/
def endpointSection (b : Builtin) (corpus : String) (started : Except PyError Endpoint)
    (loaded : Bool) : EndpointAnswer × Builtin :=
  match b.endpoint with
  | some endpoint => (⟨.ok endpoint, false⟩, b)
  | none =>
    match started with
    | .error e => (⟨.error e, false⟩, b)
    | .ok endpoint =>
      if corpus = "" ∨ loaded = true then
        (⟨.ok endpoint, false⟩, { b with endpoint := some endpoint })
      else (⟨.ok endpoint, true⟩, { endpoint := some endpoint, unloadedCorpus := corpus })

/-! ## Programs -/

inductive ProcessOp where
  | visit (o : VisitOp)
  | endpoint (corpus : String)
  | getVersion (client : McritClient)
  | importFile (client : McritClient) (path : List Char)
  | exportCorpus (client : McritClient)
  | writeText (path : List Char) (data : Json)
  | replace (source target : List Char)

@[reducible] def ProcessOp.Ans : ProcessOp → Type
  | visit o => o.Ans
  | endpoint _ => EndpointAnswer
  | getVersion _ => Except PyError String
  | importFile _ _ => Except PyError Json
  | exportCorpus _ => Except PyError Json
  | writeText _ _ => Except PyError Unit
  | replace _ _ => Except PyError Unit

def ProcessI : Interface := ⟨ProcessOp, ProcessOp.Ans⟩

abbrev ProcessProg (α : Type) := Prog ProcessI PyError α

/-- An operation that returns or raises. -/
def attempt {α : Type} (o : ProcessOp) (result : o.Ans → Except PyError α) : ProcessProg α :=
  Prog.call (I := ProcessI) o fun a => Prog.ofExcept (result a)

def startedEndpoint (corpus : String) : ProcessProg Endpoint :=
  attempt (.endpoint corpus) EndpointAnswer.result

/-- `client_for(resolve(config))`. -/
def resolvedClient (config : ProviderConfig) : ProcessProg McritClient := do
  let config ← resolve startedEndpoint config
  Prog.ofExcept (clientFor config)

/-- `corpus.export_file`. -/
def exportFile (client : McritClient) (path : List Char) : ProcessProg Json := do
  let data ← attempt (.exportCorpus client) id
  match withNameSuffix path ".partial".toList with
  | none => Prog.raise (.builtin .valueError)
  | some aside => do
    attempt (.writeText aside data) id
    attempt (.replace aside (pathText path)) id
    return field data "content"

/-- A background command: whether it reports success. -/
def reports {α : Type} (p : ProcessProg α) : ProcessProg Bool :=
  (do let _ ← p; return true : ProcessProg Bool).tryCatch fun _ => pure false

/-- `check_connection`. -/
def checkConnection (config : ProviderConfig) : ProcessProg Bool :=
  reports do
    let client ← resolvedClient config
    attempt (.getVersion client) id

/-- `import_corpus`. -/
def importCorpus (config : ProviderConfig) (path : List Char) : ProcessProg Bool :=
  reports do
    let client ← resolvedClient config
    attempt (.importFile client (pathText path)) id

/-- `export_corpus`. -/
def exportCorpus (config : ProviderConfig) (path : List Char) : ProcessProg Bool :=
  reports do
    let client ← resolvedClient config
    exportFile client path

/-- The operation of the process behind one of a visit. -/
def visitOp : VisitOp → ProcessOp
  | .endpoint corpus => .endpoint corpus
  | o => .visit o

def visitAns : (o : VisitOp) → (visitOp o).Ans → o.Ans
  | .endpoint _, a => a.result
  | .server _ _, a => a
  | .stopRequested, a => a
  | .setProgress _, a => a
  | .sleep _, a => a
  | .exportReport _, a => a
  | .claimSample _, a => a
  | .storeSample _ _, a => a
  | .releaseSample _, a => a
  | .claimCorpus _, a => a
  | .storeCorpus _ _, a => a
  | .releaseCorpus _, a => a
  | .getOffset _, a => a
  | .setOffset _ _, a => a
  | .entities _, a => a
  | .lockEntities _, a => a
  | .unlockEntities _, a => a
  | .functionAt _ _, a => a
  | .createEntity _ _ _, a => a
  | .updateLabels _, a => a
  | .addResult _ _ _ _, a => a

/-! ## The process -/

/-- What the file system is to the process: which file a path leads to. -/
structure FileEnv (F : Type) extends PathEnv where
  file : List Char → F
  /-- `json.dumps`. -/
  dumps : Json → String

section Process

variable {F τ : Type} [DecidableEq F] [DecidableEq τ] (env : FileEnv F) (rt : Runtime)

/-- `_same_file`. -/
def sameFile (path other : List Char) : Bool :=
  other ≠ [] && abspath env.toPathEnv (expanduser env.toPathEnv path) =
    abspath env.toPathEnv (expanduser env.toPathEnv other)

inductive Command where
  | visit (fuel : ℕ) (fromNode toNode : SessionNode) (config : ProviderConfig)
  | checkConnection (config : ProviderConfig)
  | importCorpus (config : ProviderConfig) (path : List Char)
  | exportCorpus (config : ProviderConfig) (path : List Char)

/-- The thread a command starts.  Imports and exports are for the built-in server, and an export is
refused for the file that could not be loaded. -/
def Command.start (b : Builtin) : Command → Option (ProcessProg Bool)
  | .visit fuel fromNode toNode config =>
    some ((performVisitNodeEdge rt fuel fromNode toNode config).lift (J := ProcessI) visitOp visitAns)
  | .checkConnection config => some (McritSimilarity.checkConnection config)
  | .importCorpus config path =>
    if isBuiltin config.server ∧ path ≠ [] then some (McritSimilarity.importCorpus config path)
    else none
  | .exportCorpus config path =>
    if isBuiltin config.server ∧ path ≠ [] ∧ ¬ sameFile env path b.unloadedCorpus.toList then
      some (McritSimilarity.exportCorpus config path)
    else none

/-- The path an export command writes to. -/
def Command.exportPath : Command → Option (List Char)
  | .exportCorpus _ path => some path
  | _ => none

/-- The state the threads share.  `failedLoads` remembers the corpus files that could not be loaded
when the server started. -/
structure Shared (F : Type) where
  builtin : Builtin
  failedLoads : List String
  files : F → Option String

/-- The threads, and the path each export thread was given. -/
structure Process (F τ : Type) where
  pool : Pool τ ProcessI PyError Bool (Shared F)
  exports : τ → Option (List Char)

/-- A process before its first command. -/
def Process.init (files : F → Option String) : Process F τ where
  pool := ⟨⟨{}, [], files⟩, fun _ => none⟩
  exports := fun _ => none

/-- What an operation answers and does.  A write that fails leaves anything in its file. -/
def processSem (s : Shared F) : (o : ProcessOp) → o.Ans → Shared F → Prop
  | .endpoint corpus, a, s' => ∃ started loaded builtin,
    endpointSection s.builtin corpus started loaded = (a, builtin) ∧
      s' = { s with
        builtin := builtin
        failedLoads := if a.loadFailed then corpus :: s.failedLoads else s.failedLoads }
  | .writeText path data, .ok (), s' =>
    s' = { s with files := Function.update s.files (env.file path) (some (env.dumps data)) }
  | .writeText path _, .error _, s' =>
    ∃ content, s' = { s with files := Function.update s.files (env.file path) content }
  | .replace source target, .ok (), s' =>
    s' = { s with
      files := Function.update (Function.update s.files (env.file source) none) (env.file target)
        (s.files (env.file source)) }
  | .replace _ _, .error _, s' => s' = s
  | .visit _, _, s' => s' = s
  | .getVersion _, _, s' => s' = s
  | .importFile _ _, _, s' => s' = s
  | .exportCorpus _, _, s' => s' = s

inductive ProcessLabel (τ : Type) where
  | command (t : τ) (c : Command)
  | op (t : τ) (o : ProcessOp) (a : o.Ans)

/-- A command is issued, as thread `t`, or a thread takes its next operation. -/
def processStep (p : Process F τ) : ProcessLabel τ → Process F τ → Prop
  | .command t c, q =>
    p.pool.threads t = none ∧
      match c.start env rt p.pool.shared.builtin with
      | none => q = p
      | some prog => q = ⟨p.pool.spawn t prog, Function.update p.exports t c.exportPath⟩
  | .op t o a, q =>
    Pool.OpStep (I := ProcessI) (processSem env) p.pool t o a q.pool ∧ q.exports = p.exports

end Process

end McritSimilarity

import Mathlib.Logic.Function.Basic
import McritSimilarity.Lib.Machine
import McritSimilarity.Provider

/-!
# A process and the servers it talks to

The caches that the visits of a process share, the samples cache of each provider, and the servers.
`visitHandler` answers the operations of a visit from them, and `ServerProcess.next` are the steps of a
process: a provider is created, a visit runs, a server is reset.

The servers stand for code that is not here.  A server answers jobs and matching requests from its
samples and from everything it was asked before, in any way at all.  `ServerAnswers.Steady` is the
documented behaviour a visit relies on.
-/

set_option autoImplicit false

namespace McritSimilarity

open Python

/-! ## Servers -/

/-- The documents of a server's samples by SHA-256. -/
abbrev StoredSamples := String → Option Json

/-- The sample of a file, by its id. -/
def HasSample (samples : StoredSamples) (sha256 : String) (sampleId : ℤ) : Prop :=
  ∃ doc, samples sha256 = some doc ∧ sampleIdOf doc = .ok sampleId

/-- Samples were only added. -/
def Grows (samples samples' : StoredSamples) : Prop :=
  ∀ sha256 doc, samples sha256 = some doc → samples' sha256 = some doc

/-- The answers of a server between two resets. -/
structure ServerAnswers where
  functions : StoredSamples → ℤ → Option Json
  functionsByIds : StoredSamples → List ℤ → OrderedMap ℤ Json
  added : StoredSamples → Upload → Except PyError Json
  /-- Any other request, after the requests before it. -/
  answer : StoredSamples → List ServerOp → (o : ServerOp) → Except PyError o.Result

/-- What changes on a server between two resets. -/
structure ServerContent where
  samples : StoredSamples
  asked : List ServerOp

/-- A report that was added is found from then on. -/
def addSample (samples : StoredSamples) (upload : Upload) : Except PyError Json → StoredSamples
  | .ok added =>
    match samples upload.report.sha256, added.getItem "sample_info" with
    | none, .ok info => Function.update samples upload.report.sha256 (some info)
    | _, _ => samples
  | .error _ => samples

namespace ServerAnswers

def reply (a : ServerAnswers) (c : ServerContent) : (o : ServerOp) → Except PyError o.Result
  | .getSampleBySha256 sha256 => .ok (c.samples sha256)
  | .getFunctionsByIds fids => .ok (a.functionsByIds c.samples fids)
  | .addReport upload => a.added c.samples upload
  | o => a.answer c.samples c.asked o

def samplesAfter (a : ServerAnswers) (samples : StoredSamples) : ServerOp → StoredSamples
  | .addReport upload => addSample samples upload (a.added samples upload)
  | _ => samples

/-- The handler of a server; nobody asks to stop. -/
def serve (a : ServerAnswers) : Prog.Handler SampleI ServerContent
  | .server o, c => (a.reply c o, ⟨a.samplesAfter c.samples o, o :: c.asked⟩)
  | .shouldStop, c => (false, c)
  | .onProgress _, c => ((), c)
  | .sleep _, c => ((), c)

end ServerAnswers

/-- Payloads with the same rows of one sample. -/
def SameRows (sampleId : ℤ) (payload payload' : Json) : Prop :=
  payload.isNull = payload'.isNull ∧ ∀ filter : MatchFilter,
    filter.targetSampleId = some sampleId → parseVsResult payload filter = parseVsResult payload' filter

/-- Between two resets a server hands out an id once, and samples that are added later change neither
the functions nor the matches of the samples before them.  The same request comes to the same end,
whatever was asked before, and the indexing of a sample that is found comes to an end. -/
structure ServerAnswers.Steady (rt : Runtime) (fuel : ℕ) (a : ServerAnswers) : Prop where
  functions_grow : ∀ samples samples' fid entry, Grows samples samples' →
    a.functions samples fid = some entry → a.functions samples' fid = some entry
  find?_functionsByIds : ∀ samples fids fid, (a.functionsByIds samples fids).find? fid =
    if fid ∈ fids then a.functions samples fid else none
  indexed : ∀ (c : ServerContent) sha256 sampleId opts, HasSample c.samples sha256 sampleId →
    ((pendingIndexJob rt sampleId >>= fun jobId => awaitIndexing rt fuel jobId opts).run a.serve c).1 =
      .returned ()
  uploaded : ∀ samples asked asked' report labels opts, samples report.sha256 = none →
    ((uploadSample rt fuel report labels opts).run a.serve ⟨samples, asked⟩).1 =
      ((uploadSample rt fuel report labels opts).run a.serve ⟨samples, asked'⟩).1
  vs : ∀ samples asked asked' own other params,
    ((matchSampleVs rt fuel own other params).run a.serve ⟨samples, asked⟩).1 =
      ((matchSampleVs rt fuel own other params).run a.serve ⟨samples, asked'⟩).1
  corpus : ∀ (c c' : ServerContent) own params sha256 sampleId, Grows c.samples c'.samples →
    HasSample c.samples sha256 sampleId → OutcomeRel (SameRows sampleId)
      ((matchSampleCorpus rt fuel own params).run a.serve c).1
      ((matchSampleCorpus rt fuel own params).run a.serve c').1

structure McritServer (rt : Runtime) (fuel : ℕ) where
  answers : ServerAnswers
  steady : answers.Steady rt fuel
  content : ServerContent

/-- `FUNCTION_OFFSETS = LockedCache(max_items=200_000)`. -/
def functionOffsetItems : ℕ := 200000

/-- A payload names no more functions than `FUNCTION_OFFSETS` has room for. -/
def FitsOffsets (payload : Json) : Prop :=
  ∀ filter matched, parseVsResult payload filter = .ok matched →
    (uniqueTargetFunctionIds matched).length ≤ functionOffsetItems

/-- No matching result of a server names more functions than there is room for. -/
def ServerAnswers.Fits (rt : Runtime) (fuel : ℕ) (a : ServerAnswers) : Prop :=
  (∀ c own other params payload,
    ((matchSampleVs rt fuel own other params).run a.serve c).1 = .returned payload →
      FitsOffsets payload) ∧
  ∀ c own params payload, ((matchSampleCorpus rt fuel own params).run a.serve c).1 = .returned payload →
    FitsOffsets payload

namespace McritServer

variable {rt : Runtime} {fuel : ℕ}

def serve (server : McritServer rt fuel) (o : SampleI.Op) : SampleI.Ans o :=
  (server.answers.serve o server.content).1

def withContent (server : McritServer rt fuel) (c : ServerContent) : McritServer rt fuel :=
  { server with content := c }

end McritServer

/-- The servers by the URL a client uses. -/
abbrev Servers (rt : Runtime) (fuel : ℕ) := String → McritServer rt fuel

def Servers.afterOp {rt : Runtime} {fuel : ℕ} (servers : Servers rt fuel) (url : String)
    (o : SampleI.Op) : Servers rt fuel :=
  Function.update servers url
    ((servers url).withContent ((servers url).answers.serve o (servers url).content).2)

/-! ## The state of a process -/

abbrev ProviderId := ℕ

structure ServerProcess (rt : Runtime) (fuel : ℕ) where
  servers : Servers rt fuel
  functionOffsets : LockedCache (String × ℤ) (ℤ × String)
  corpusMatches : LockedCache CorpusKey Json
  /-- The `_samples` of each provider. -/
  samples : ProviderId → LockedCache (String × String) SampleRef
  /-- Whether the provider was created after the last reset of a server. -/
  isNew : ProviderId → String → Bool

/-- What the session and the views answer during a visit. -/
structure Surroundings where
  exportReport : ViewId → Except PyError SmdaReport
  endpoint : String → Except PyError Endpoint
  entities : ℤ → List (ℤ × Option EntityInfo)
  functionAt : ViewId → ℤ → Bool
  createEntity : ℤ → ℤ → String → ℤ
  addResult : EntityRef → EntityRef → ℤ → ℤ → ℤ

/-- An edge visit of a provider.  The source of an edge is one of the incoming nodes of its target. -/
structure VisitCall where
  provider : ProviderId
  fromNode : SessionNode
  toNode : SessionNode
  incoming : fromNode.view ∈ toNode.incomingViews
  config : ProviderConfig
  surroundings : Surroundings

/-- The URL of the server a visit asks. -/
def VisitCall.url (v : VisitCall) : Except PyError String :=
  if isBuiltin v.config.server then
    (v.surroundings.endpoint v.config.builtinCorpus).bind fun started => clientServer started.url
  else clientServer v.config.server

/-- What a visit emits. -/
inductive Emission where
  | labels (labels : List ((ℤ × ℤ) × String))
  | result (source target : EntityRef) (similarity confidence : ℤ)
  deriving DecidableEq, Repr

/-- A process during a visit. -/
structure VisitState (rt : Runtime) (fuel : ℕ) extends ServerProcess rt fuel where
  emitted : List Emission

section Handler

variable {rt : Runtime} {fuel : ℕ}

/-- The answers to the operations of a visit. -/
def visitHandler (v : VisitCall) : Prog.Handler VisitI (VisitState rt fuel)
  | .server client o, s =>
    ((s.servers client.mcritServer).serve (.server o),
      { s with servers := s.servers.afterOp client.mcritServer (.server o) })
  | .stopRequested, s => (false, s)
  | .setProgress _, s => ((), s)
  | .sleep _, s => ((), s)
  | .exportReport view, s => (v.surroundings.exportReport view, s)
  | .endpoint corpus, s => (v.surroundings.endpoint corpus, s)
  | .claimSample key, s =>
    (claimOf (s.samples v.provider) key,
      { s with samples :=
          Function.update s.samples v.provider ((s.samples v.provider).get key).2 })
  | .storeSample key ref, s =>
    ((), { s with samples :=
        Function.update s.samples v.provider ((s.samples v.provider).store key ref 0) })
  | .releaseSample _, s => ((), s)
  | .claimCorpus key, s =>
    (claimOf s.corpusMatches key, { s with corpusMatches := (s.corpusMatches.get key).2 })
  | .storeCorpus key payload, s =>
    ((), { s with corpusMatches := s.corpusMatches.store key payload 0 })
  | .releaseCorpus _, s => ((), s)
  | .getOffset key, s =>
    ((s.functionOffsets.get key).1, { s with functionOffsets := (s.functionOffsets.get key).2 })
  | .setOffset key found, s =>
    ((), { s with functionOffsets := s.functionOffsets.store key found 0 })
  | .entities nodeId, s => (v.surroundings.entities nodeId, s)
  | .lockEntities _, s => ((), s)
  | .unlockEntities _, s => ((), s)
  | .functionAt view address, s => (v.surroundings.functionAt view address, s)
  | .createEntity nodeId address name, s => (v.surroundings.createEntity nodeId address name, s)
  | .updateLabels labels, s => ((), { s with emitted := s.emitted ++ [.labels labels] })
  | .addResult source target similarity confidence, s =>
    (v.surroundings.addResult source target similarity confidence,
      { s with emitted := s.emitted ++ [.result source target similarity confidence] })

/-- A visit from a state of the process. -/
def runVisit (s : ServerProcess rt fuel) (v : VisitCall) : Outcome PyError Bool × VisitState rt fuel :=
  (performVisitNodeEdge rt fuel v.fromNode v.toNode v.config).run (visitHandler v) ⟨s, []⟩

end Handler

/-! ## Processes -/

namespace ServerProcess

variable {rt : Runtime} {fuel : ℕ}

/-- A process that has just started. -/
def start (servers : Servers rt fuel) : ServerProcess rt fuel where
  servers := servers
  functionOffsets := .new (some functionOffsetItems) none false
  corpusMatches := .new (some 4) none false
  samples := fun _ => .new none none false
  isNew := fun _ _ => false

/-- `McritProvider(…)`. -/
def create (s : ServerProcess rt fuel) (p : ProviderId) : ServerProcess rt fuel :=
  { s with
    samples := Function.update s.samples p (.new none none false)
    isNew := Function.update s.isNew p fun _ => true }

/-- The server at a URL hands out its ids again, for other functions. -/
def reset (s : ServerProcess rt fuel) (url : String) (server : McritServer rt fuel) :
    ServerProcess rt fuel :=
  { s with
    servers := Function.update s.servers url server
    isNew := fun p => Function.update (s.isNew p) url false }

inductive Label (rt : Runtime) (fuel : ℕ) where
  | create (p : ProviderId)
  | visit (v : VisitCall)
  | reset (url : String) (server : McritServer rt fuel)

def next (s : ServerProcess rt fuel) : Label rt fuel → ServerProcess rt fuel
  | .create p => s.create p
  | .visit v => (runVisit s v).2.toServerProcess
  | .reset url server => s.reset url server

def Step (s : ServerProcess rt fuel) (l : Label rt fuel) (s' : ServerProcess rt fuel) : Prop :=
  s' = s.next l

end ServerProcess

end McritSimilarity

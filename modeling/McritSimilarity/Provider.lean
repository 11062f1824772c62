import Mathlib.Data.Finset.Basic
import McritSimilarity.Cache.GetOrSet
import McritSimilarity.Connection
import McritSimilarity.Mapping
import McritSimilarity.Samples

/-!
# Edge visits

`visitEdge` is `McritProvider._visit_edge` as a program over `VisitI`, the operations a visit asks of
the session, the views, the server and the shared caches.  The configuration is the one that
`_current_config` returned for the visit.  Messages that are only logged are left out.

A cached value is reached through `getOrSet`.
-/

set_option autoImplicit false

namespace McritSimilarity

open Python

/-- A view, by the open file it belongs to. -/
abbrev ViewId := ℕ

/-- The parts of a session node that a visit reads directly. -/
structure SessionNode where
  id : ℤ
  view : Option ViewId
  scheduledEntities : List ℤ
  /-- The views of the incoming nodes. -/
  incomingViews : List (Option ViewId)
  deriving DecidableEq, Repr

/-- An entity as the node describes it. -/
structure EntityInfo where
  isFunction : Bool
  address : ℤ
  name : String
  deriving DecidableEq, Repr

/-- `SimilarityEntityRef`. -/
structure EntityRef where
  nodeId : ℤ
  entityId : ℤ
  deriving DecidableEq, Repr

/-- The key of a corpus payload; the last part is the `frozenset` of the incoming sample ids. -/
structure CorpusKey where
  server : String
  sampleId : ℤ
  params : MatchingParams
  sampleIds : Finset ℤ
  deriving DecidableEq

inductive VisitOp where
  | server (client : McritClient) (o : ServerOp)
  | stopRequested
  | setProgress (value : PyFloat)
  | sleep (seconds : ℚ)
  | exportReport (view : ViewId)
  | endpoint (corpus : String)
  | claimSample (key : String × String)
  | storeSample (key : String × String) (ref : SampleRef)
  | releaseSample (key : String × String)
  | claimCorpus (key : CorpusKey)
  | storeCorpus (key : CorpusKey) (payload : Json)
  | releaseCorpus (key : CorpusKey)
  | getOffset (key : String × ℤ)
  | setOffset (key : String × ℤ) (found : ℤ × String)
  | entities (nodeId : ℤ)
  | lockEntities (nodeId : ℤ)
  | unlockEntities (nodeId : ℤ)
  | functionAt (view : ViewId) (address : ℤ)
  | createEntity (nodeId : ℤ) (address : ℤ) (name : String)
  | updateLabels (labels : List ((ℤ × ℤ) × String))
  | addResult (source target : EntityRef) (similarity confidence : ℤ)

@[reducible] def VisitOp.Ans : VisitOp → Type
  | server _ o => Except PyError o.Result
  | stopRequested => Bool
  | setProgress _ => Unit
  | sleep _ => Unit
  | exportReport _ => Except PyError SmdaReport
  | endpoint _ => Except PyError Endpoint
  | claimSample _ => Claim SampleRef
  | storeSample _ _ => Unit
  | releaseSample _ => Unit
  | claimCorpus _ => Claim Json
  | storeCorpus _ _ => Unit
  | releaseCorpus _ => Unit
  | getOffset _ => Option (ℤ × String)
  | setOffset _ _ => Unit
  | entities _ => List (ℤ × Option EntityInfo)
  | lockEntities _ => Unit
  | unlockEntities _ => Unit
  | functionAt _ _ => Bool
  | createEntity _ _ _ => ℤ
  | updateLabels _ => Unit
  | addResult _ _ _ _ => ℤ

def VisitI : Interface := ⟨VisitOp, VisitOp.Ans⟩

abbrev VisitProg (α : Type) := Prog VisitI PyError α

/-- An operation, and what it answers. -/
def ask (o : VisitOp) : VisitProg o.Ans := Prog.op (I := VisitI) o

/-! ## Helpers -/

/-- `_progress` and `if should_stop(): raise _Stopped`. -/
def advance (progress : ℚ) : VisitProg Unit := do
  ask (.setProgress (.finite progress))
  let stop ← ask .stopRequested
  Prog.raiseIf (stop = true) .stopped

/-- `start + (end - start) * max(0.0, min(1.0, fraction))`; a NaN counts as one. -/
def scaleProgress (start stop : ℚ) : PyFloat → PyFloat
  | .finite fraction => .finite (start + (stop - start) * max 0 (min 1 fraction))
  | .negInf => .finite start
  | _ => .finite stop

/-- The operation of a visit behind one of a server program; progress goes through `span`. -/
def sampleOp (client : McritClient) (start stop : ℚ) : SampleOp → VisitOp
  | .server o => .server client o
  | .shouldStop => .stopRequested
  | .onProgress fraction => .setProgress (scaleProgress start stop fraction)
  | .sleep seconds => .sleep seconds

def sampleAns (client : McritClient) (start stop : ℚ) :
    (o : SampleOp) → (sampleOp client start stop o).Ans → o.Ans
  | .server _, a => a
  | .shouldStop, a => a
  | .onProgress _, a => a
  | .sleep _, a => a

def onServer {α : Type} (client : McritClient) (start stop : ℚ) (p : SampleProg α) : VisitProg α :=
  p.lift (J := VisitI) (sampleOp client start stop) (sampleAns client start stop)

/-- `value is not None and (not isinstance(value, (dict, list, set)) or len(value) > 0)`. -/
def shouldCache : Json → Bool
  | .null => false
  | .list xs => !xs.isEmpty
  | .dict members => !members.isEmpty
  | _ => true

section Visit

variable (rt : Runtime) (fuel : ℕ)

def matchingParams (config : ProviderConfig) : MatchingParams where
  minhashThreshold := config.minhashThreshold
  pichashSize := config.pichashSize
  bandMatchesRequired := config.bandMatchesRequired

def sampleLabels (config : ProviderConfig) : SampleLabels where
  persist := config.persistSamples
  family := config.family
  version := config.version

/-- The progress span a request reports to, or `none`. -/
abbrev Span := Option (ℚ × ℚ)

/-- `_sample`. -/
def sample (client : McritClient) (config : ProviderConfig) (report : SmdaReport) (span : Span) :
    VisitProg SampleRef :=
  getOrSet (ask (.claimSample (config.server, report.sha256)))
    (fun ref => ask (.storeSample (config.server, report.sha256) ref))
    (ask (.releaseSample (config.server, report.sha256)))
    (onServer client (span.getD (0, 1)).1 (span.getD (0, 1)).2
      (ensureSample rt fuel client.mcritServer report (sampleLabels config)
        { reports := span.isSome }))

/-- `export_smda_report`. -/
def exportReport (view : ViewId) : VisitProg SmdaReport := do
  let report ← ask (.exportReport view)
  Prog.ofExcept report

/-- The sample ids of the incoming nodes; `none` when a node has no view. -/
def incomingSampleIds (client : McritClient) (config : ProviderConfig) :
    List (Option ViewId) → Finset ℤ → VisitProg (Option (Finset ℤ))
  | [], ids => pure (some ids)
  | none :: _, _ => pure none
  | some view :: views, ids => do
    let report ← exportReport view
    let ref ← sample rt fuel client config report none
    incomingSampleIds client config views (insert ref.sampleId ids)

def corpusKey (config : ProviderConfig) (toSample : SampleRef) (ids : Finset ℤ) : CorpusKey where
  server := config.server
  sampleId := toSample.sampleId
  params := matchingParams config
  sampleIds := ids

/-- The corpus payload under its key. -/
def sharedPayload (client : McritClient) (config : ProviderConfig) (toSample : SampleRef)
    (ids : Finset ℤ) : VisitProg Json :=
  getOrSet (ask (.claimCorpus (corpusKey config toSample ids)))
    (fun payload =>
      if shouldCache payload then ask (.storeCorpus (corpusKey config toSample ids) payload)
      else pure ())
    (ask (.releaseCorpus (corpusKey config toSample ids)))
    (onServer client (55 / 100) (88 / 100)
      (matchSampleCorpus rt fuel toSample.sampleId (matchingParams config)))

/-- The `try` block of `_corpus_payload`; `null` stands for `None`. -/
def tryCorpusPayload (client : McritClient) (config : ProviderConfig) (toNode : SessionNode)
    (toSample : SampleRef) : VisitProg Json := do
  match ← incomingSampleIds rt fuel client config toNode.incomingViews ∅ with
  | none => pure .null
  | some ids => sharedPayload rt fuel client config toSample ids

/-- `_corpus_payload`. -/
def corpusPayload (client : McritClient) (config : ProviderConfig) (toNode : SessionNode)
    (toSample : SampleRef) : VisitProg Json :=
  if toNode.incomingViews.length < 2 then pure .null
  else (tryCorpusPayload rt fuel client config toNode toSample).tryCatch fun _ => pure .null

/-- The payload of this edge alone. -/
def edgePayload (client : McritClient) (config : ProviderConfig) (fromSample toSample : SampleRef) :
    VisitProg Json := do
  let stop ← ask .stopRequested
  Prog.raiseIf (stop = true) .stopped
  onServer client (55 / 100) (88 / 100)
    (matchSampleVs rt fuel toSample.sampleId fromSample.sampleId (matchingParams config))

/-- `_match_payload`. -/
def matchPayload (client : McritClient) (config : ProviderConfig) (toNode : SessionNode)
    (fromSample toSample : SampleRef) : VisitProg Json := do
  let shared ← (if config.queryPerNode then corpusPayload rt fuel client config toNode toSample
    else pure .null : VisitProg Json)
  if shared.isNull then edgePayload rt fuel client config fromSample toSample else pure shared

/-! ## Offsets and labels of the matched functions -/

/-- `[fid for fid in function_ids if FUNCTION_OFFSETS.get((server, fid)) is None]`. -/
def missingOffsets (server : String) : List ℤ → VisitProg (List ℤ)
  | [] => pure []
  | fid :: fids => do
    let found ← ask (.getOffset (server, fid))
    let rest ← missingOffsets server fids
    return if found.isNone then fid :: rest else rest

def setOffsets (server : String) : List (ℤ × ℤ × String) → VisitProg Unit
  | [] => pure ()
  | (fid, found) :: rest => do
    ask (.setOffset (server, fid) found)
    setOffsets server rest

/-- Functions by id: offset and corpus label. -/
abbrev Targets := OrderedMap ℤ (ℤ × String)

def knownOffsets (server : String) : List ℤ → Targets → VisitProg Targets
  | [], known => pure known
  | fid :: fids, known => do
    let found ← ask (.getOffset (server, fid))
    knownOffsets server fids (match found with
      | some found => known.put fid found
      | none => known)

/-- `if missing: …`. -/
def fetchOffsets (client : McritClient) (server : String) (missing : List ℤ) : VisitProg Unit :=
  if missing = [] then pure ()
  else do
    let entries ← onServer client 0 1 (request (.getFunctionsByIds missing))
    setOffsets server (targetFunctions rt entries)

/-- `_target_functions`. -/
def lookupTargets (client : McritClient) (server : String) (functionIds : List ℤ) :
    VisitProg Targets := do
  let missing ← missingOffsets server functionIds
  fetchOffsets rt client server missing
  knownOffsets server functionIds .empty

/-! ## Entities -/

/-- `_entities`: only functions can carry a match. -/
def functionEntities (listed : List (ℤ × Option EntityInfo)) : List Entity :=
  listed.filterMap fun
    | (id, some info) => if info.isFunction then some ⟨id, info.address, info.name⟩ else none
    | (_, none) => none

/-- Hexadecimal digits; a negative number has a sign in front. -/
def hexText (n : ℤ) : String :=
  let digits := String.ofList (Nat.toDigits 16 n.natAbs)
  if n < 0 then "-" ++ digits else digits

/-- `_function_name`. -/
def reportedName (report : SmdaReport) (offset : ℤ) : String :=
  match smdaFunction report offset with
  | some f => if f.functionName ≠ "" then f.functionName else "sub_" ++ hexText offset
  | none => "sub_" ++ hexText offset

/-- Whether the view has a function at an address, or at the address without its Thumb bit. -/
def viewHasFunction (view : ViewId) (offset : ℤ) : VisitProg Bool := do
  let found ← ask (.functionAt view offset)
  if found then pure true else ask (.functionAt view (clearBit0 offset))

/-- One round of `_add_match_only_entities`, for an offset that no entity has. -/
def addEntity (fromNode : SessionNode) (view : ViewId) (report : SmdaReport) (offset : ℤ)
    (targetIndex : EntityIndex) : VisitProg EntityIndex := do
  let found ← viewHasFunction view offset
  if found then do
    let name := reportedName report offset
    let entityId ← ask (.createEntity fromNode.id offset name)
    return targetIndex.put offset ⟨entityId, offset, name⟩
  else pure targetIndex

/-- `_add_match_only_entities`: the index with the entities created on the way. -/
def addMatchOnlyEntities (fromNode : SessionNode) (view : ViewId) (report : SmdaReport) :
    List FunctionMatch → EntityIndex → VisitProg EntityIndex
  | [], targetIndex => pure targetIndex
  | m :: rest, targetIndex =>
    match m.targetOffset with
    | none => addMatchOnlyEntities fromNode view report rest targetIndex
    | some offset =>
      if (lookupEntity targetIndex offset).isSome then
        addMatchOnlyEntities fromNode view report rest targetIndex
      else do
        let targetIndex ← addEntity fromNode view report offset targetIndex
        addMatchOnlyEntities fromNode view report rest targetIndex

/-- The block under the entity lock of the target node. -/
def targetEntities (fromNode : SessionNode) (view : ViewId) (report : SmdaReport)
    (matched : List FunctionMatch) : VisitProg EntityIndex := do
  ask (.lockEntities fromNode.id)
  Prog.tryFinally (do
    let listed ← ask (.entities fromNode.id)
    addMatchOnlyEntities fromNode view report matched (indexEntities (functionEntities listed)))
    (ask (.unlockEntities fromNode.id))

/-! ## Results -/

/-- `{offset: label for offset, label in targets.values() if label}`. -/
def corpusLabels (targets : Targets) : OrderedMap ℤ String :=
  targets.values.foldl
    (fun labels found => if found.2 = "" then labels else labels.put found.1 found.2) .empty

/-- The labels a visit writes. -/
def pairLabels (fromNode : SessionNode) (targets : Targets) (paired : List MatchPair) :
    List ((ℤ × ℤ) × String) :=
  paired.filterMap fun pair =>
    ((corpusLabels targets).find? pair.targetOffset).map fun label =>
      ((fromNode.id, pair.targetEntityId), label)

/-- The loop over the pairs; the number of results that were added. -/
def emitPairs (fromNode toNode : SessionNode) : List MatchPair → VisitProg ℕ
  | [] => pure 0
  | pair :: pairs => do
    let stop ← ask .stopRequested
    Prog.raiseIf (stop = true) .stopped
    let resultId ← ask (.addResult ⟨toNode.id, pair.sourceEntityId⟩
      ⟨fromNode.id, pair.targetEntityId⟩ pair.similarity pair.confidence)
    let emitted ← emitPairs fromNode toNode pairs
    return if resultId = 0 then emitted else emitted + 1

/-- The matches of a visit that touch a scheduled function, or none that is listed. -/
def wanted (matched : List FunctionMatch) (sourceIndex : EntityIndex) (scheduled : List ℤ) : ℕ :=
  matched.countP fun m =>
    match lookupEntity sourceIndex m.sourceOffset with
    | none => true
    | some source => source.entityId ∈ scheduled

/-- The end of a visit: labels, results and the verdict. -/
def emitMatches (fromNode toNode : SessionNode) (matched : List FunctionMatch) (targets : Targets)
    (sourceIndex targetIndex : EntityIndex) : VisitProg Bool := do
  let paired := (pairMatches matched sourceIndex targetIndex toNode.scheduledEntities).1
  ask (.updateLabels (pairLabels fromNode targets paired))
  let emitted ← emitPairs fromNode toNode paired
  if wanted matched sourceIndex toNode.scheduledEntities ≠ 0 ∧ emitted = 0 then pure false
  else do
    ask (.setProgress (.finite 1))
    return true

/-- The filters of a visit. -/
def visitFilter (config : ProviderConfig) (fromSample : SampleRef) : MatchFilter where
  minScore := config.minhashThreshold
  includeLibrary := config.includeLibrary
  maxResults := config.maxResults
  targetSampleId := some fromSample.sampleId

/-- A visit from its payload on. -/
def visitPayload (fromNode toNode : SessionNode) (fromView : ViewId) (config : ProviderConfig)
    (client : McritClient) (fromReport : SmdaReport) (fromSample : SampleRef) (payload : Json) :
    VisitProg Bool := do
  let matched ← Prog.ofExcept (parseVsResult payload (visitFilter config fromSample))
  let targets ← lookupTargets rt client config.server (uniqueTargetFunctionIds matched)
  let matched := withTargetOffsets (fun fid => (targets.find? fid).map Prod.fst) matched
  advance (9 / 10)
  let listed ← ask (.entities toNode.id)
  let targetIndex ← targetEntities fromNode fromView fromReport matched
  emitMatches fromNode toNode matched targets (indexEntities (functionEntities listed)) targetIndex

/-- What a visit has at hand when it asks for its payload. -/
structure VisitSetup where
  config : ProviderConfig
  client : McritClient
  fromReport : SmdaReport
  fromSample : SampleRef
  toSample : SampleRef

/-- A visit up to its samples. -/
def visitSetup (fromView toView : ViewId) (config : ProviderConfig) : VisitProg VisitSetup := do
  advance (2 / 100)
  let fromReport ← exportReport fromView
  advance (18 / 100)
  let toReport ← exportReport toView
  advance (32 / 100)
  let config ← resolve (fun corpus => ask (.endpoint corpus) >>= Prog.ofExcept) config
  let client ← Prog.ofExcept (clientFor config)
  let fromSample ← sample rt fuel client config fromReport (some (32 / 100, 42 / 100))
  advance (42 / 100)
  let toSample ← sample rt fuel client config toReport (some (42 / 100, 52 / 100))
  advance (55 / 100)
  return ⟨config, client, fromReport, fromSample, toSample⟩

/-- A visit of two views. -/
def visitViews (fromNode toNode : SessionNode) (fromView toView : ViewId) (config : ProviderConfig) :
    VisitProg Bool := do
  let s ← visitSetup rt fuel fromView toView config
  let payload ← matchPayload rt fuel s.client s.config toNode s.fromSample s.toSample
  advance (88 / 100)
  visitPayload rt fromNode toNode fromView s.config s.client s.fromReport s.fromSample payload

/-- `_visit_edge`; `config` is what `_current_config` returns. -/
def visitEdge (fromNode toNode : SessionNode) (config : ProviderConfig) : VisitProg Bool :=
  if toNode.scheduledEntities = [] then pure true
  else match fromNode.view, toNode.view with
    | some fromView, some toView => visitViews rt fuel fromNode toNode fromView toView config
    | _, _ => pure false

/-- The `except` clauses of `perform_visit_node_edge`.  The error of a job polls, to log a stop as no failure. -/
def visitFailed (e : PyError) : VisitProg Bool :=
  match e with
  | .mcrit .job _ => do
    let _ ← ask .stopRequested
    return false
  | _ => return false

/-- `perform_visit_node_edge`: every exception ends the visit. -/
def performVisitNodeEdge (fromNode toNode : SessionNode) (config : ProviderConfig) :
    VisitProg Bool :=
  (visitEdge rt fuel fromNode toNode config).tryCatch visitFailed

theorem visitFailed_cases (e : PyError) :
    (visitFailed e = do let _ ← ask .stopRequested; return false) ∨ visitFailed e = pure false := by
  unfold visitFailed
  split
  · exact Or.inl rfl
  · exact Or.inr rfl

end Visit

end McritSimilarity

import McritSimilarity.Client
import McritSimilarity.Jobs

/-!
# Samples on the server

`ensureSample` looks a report's sample up and uploads it when that is allowed; `matchSampleVs` and
`matchSampleCorpus` run the matchers.  What a program of this file may call is stated by
`ensureSample_onlyCalls` and its siblings: only `ensureSample` uploads, and only when `persist` is set.
-/

set_option autoImplicit false

namespace McritSimilarity

open Python

/-- `_INDEX_METHOD`. -/
def indexMethod : String := "updateMinHashesForSample"

structure SampleRef where
  sampleId : ℤ
  sha256 : String
  existed : Bool
  deriving DecidableEq, Repr

def unavailable (message : String) : PyError := .mcrit .unavailable message

/-- `_sample_id`. -/
def sampleIdOf (sampleInfo : Json) : Except PyError ℤ :=
  match (sampleInfo.getItem "sample_id").bind Json.toInt with
  | .ok n => .ok n
  | .error .overflowError => .error (.builtin .overflowError)
  | .error .attributeError => .error (.builtin .attributeError)
  | .error _ => .error (unavailable "MCRIT sample_info is missing sample_id")

variable (rt : Runtime)

/-- `json.loads(payload.get("params") or "{}")`; `none` where it raises. -/
def jobParams (payload : Json) : Option Json :=
  match (field payload "params").orElse (.str "{}") with
  | .str s => rt.loads s
  | _ => none

/-- `_indexes_sample`. -/
def indexesSample (job : Json) (sampleId : ℤ) : Bool :=
  let payload := field job "payload"
  if ¬ payload.isDict ∨ ¬ (field payload "method").eqStr indexMethod then false
  else match jobParams rt payload with
    | none => false
    | some params => params.isDict && (field params "0").eqInt sampleId

/-- The id of a job document, when it is usable. -/
def jobDocumentId (job : Json) : Option String :=
  let rawId := field job "_id"
  let jobId := if rawId.isDict then field rawId "$oid" else rawId
  if jobId.truthy then some (rt.str jobId) else none

/-- The loop of `pending_index_job`: the first usable id of a queued or running indexing job. -/
def firstPending (sampleId : ℤ) : List Json → Option String
  | [] => none
  | job :: jobs =>
    if indexesSample rt job sampleId ∧ (jobState job = .queued ∨ jobState job = .inProgress) then
      (jobDocumentId rt job).or (firstPending sampleId jobs)
    else firstPending sampleId jobs

def pendingIndexJob (sampleId : ℤ) : SampleProg (Option String) := do
  let jobs ← request (.getJobs indexMethod sampleId)
  return firstPending rt sampleId jobs

/-- `if job_id: _await_indexing(…)`. -/
def awaitIndexing (fuel : ℕ) (jobId : Option String) (opts : AwaitOptions) : SampleProg Unit :=
  match jobId with
  | some jobId => do
    let _ ← awaitJob rt fuel jobId opts
    return ()
  | none => pure ()

/-- `_existing_sample`. -/
def existingSample (fuel : ℕ) (sampleInfo : Json) (sha256 : String) (opts : AwaitOptions) :
    SampleProg SampleRef := do
  let sampleId ← Prog.ofExcept (sampleIdOf sampleInfo)
  let jobId ← pendingIndexJob rt sampleId
  awaitIndexing rt fuel jobId opts
  return ⟨sampleId, sha256, true⟩

/-- The parameters of `ensure_sample` that come from the configuration. -/
structure SampleLabels where
  persist : Bool
  family : String
  version : String
  deriving DecidableEq, Repr

/-- The first twelve characters of a hash. -/
def shortHash (sha256 : String) : String := String.ofList (sha256.toList.take 12)

def missingSample (server sha256 : String) : PyError :=
  .mcrit .base ("Sample " ++ shortHash sha256 ++ "… is not on the MCRIT server " ++ server ++
    "; enable Persist samples in the MCRIT provider settings to upload it")

/-- An upload that created the sample. -/
def newSample (fuel : ℕ) (sampleInfo jobId : Json) (sha256 : String) (opts : AwaitOptions) :
    SampleProg SampleRef := do
  let sampleId ← Prog.ofExcept (sampleIdOf sampleInfo)
  -- MinHash must finish before matching or unhashed functions produce empty results.
  awaitIndexing rt fuel (if jobId.truthy then some (rt.str jobId) else none) opts
  return ⟨sampleId, sha256, false⟩

/-- The branch of `ensure_sample` that uploads. -/
def uploadSample (fuel : ℕ) (report : SmdaReport) (labels : SampleLabels) (opts : AwaitOptions) :
    SampleProg SampleRef := do
  let added ← request (.addReport ⟨report, labels.family, labels.version⟩)
  let sampleInfo ← Prog.ofExcept (uncaught (added.getItem "sample_info"))
  if (field added "existed").truthy then existingSample rt fuel sampleInfo report.sha256 opts
  else newSample rt fuel sampleInfo (field added "job_id") report.sha256 opts

def ensureSample (fuel : ℕ) (server : String) (report : SmdaReport) (labels : SampleLabels)
    (opts : AwaitOptions := {}) : SampleProg SampleRef := do
  Prog.raiseIf (report.sha256 = "") (unavailable "SMDA report has no sha256")
  match ← request (.getSampleBySha256 report.sha256) with
  | some existing => existingSample rt fuel existing report.sha256 opts
  | none => do
    Prog.raiseIf (¬ labels.persist) (missingSample server report.sha256)
    uploadSample rt fuel report labels opts

def matchSampleVs (fuel : ℕ) (ownSampleId otherSampleId : ℤ) (params : MatchingParams)
    (opts : AwaitOptions := {}) : SampleProg Json := do
  let payload ← request (.requestMatchesForSampleVs ownSampleId otherSampleId params)
  resolveMatches rt fuel payload opts

/-- MCRIT keeps a `MatcherSample` result when samples are added later, hence the recalculation. -/
def matchSampleCorpus (fuel : ℕ) (ownSampleId : ℤ) (params : MatchingParams)
    (opts : AwaitOptions := {}) : SampleProg Json := do
  let payload ← request (.requestMatchesForSample ownSampleId params true)
  resolveMatches rt fuel payload opts

/-! ## What the programs call -/

/-- The operation does not upload. -/
def NoUpload : SampleOp → Prop
  | .server (.addReport _) => False
  | _ => True

section Calls

variable {P : SampleOp → Prop}

theorem request_onlyCalls {o : ServerOp} (ho : P (.server o)) : (request o).OnlyCalls P :=
  ⟨ho, fun _ => Prog.onlyCalls_ofExcept _⟩

theorem sleep_onlyCalls (seconds : ℚ) : (sleep seconds).OnlyCalls NoUpload :=
  ⟨trivial, fun _ => trivial⟩

theorem polledStop_onlyCalls (stops : Bool) : (polledStop stops).OnlyCalls NoUpload := by
  unfold polledStop
  split_ifs
  · exact ⟨trivial, fun _ => trivial⟩
  · trivial

theorem writtenResult_onlyCalls (jobId resultId : String) :
    (writtenResult jobId resultId).OnlyCalls NoUpload := by
  refine .bind (request_onlyCalls trivial) fun result => .bind ?_ fun result =>
    .bind (Prog.onlyCalls_raiseIf _ _) fun _ => trivial
  unfold jobResultIfNull
  split_ifs
  · exact request_onlyCalls trivial
  · trivial

theorem finishedRound_onlyCalls (jobId : String) (opts : AwaitOptions) (st : AwaitState)
    (job : Json) : (finishedRound rt jobId opts st job).OnlyCalls NoUpload := by
  unfold finishedRound
  split_ifs
  · refine .bind (request_onlyCalls trivial) fun viaJob => ?_
    unfold unwrittenRound
    split_ifs
    · exact .bind (Prog.onlyCalls_raiseIf _ _) fun _ => .bind (sleep_onlyCalls _) fun _ => trivial
    · trivial
  · exact .bind (writtenResult_onlyCalls _ _) fun _ => trivial

theorem presentRound_onlyCalls (jobId : String) (opts : AwaitOptions) (st : AwaitState)
    (job : Json) : (presentRound rt jobId opts st job).OnlyCalls NoUpload := by
  refine .bind ?_ fun _ => .bind (Prog.onlyCalls_raiseIf _ _) fun _ =>
    .bind (Prog.onlyCalls_raiseIf _ _) fun _ => ?_
  · unfold reportProgress
    split_ifs
    · refine .bind (Prog.onlyCalls_ofExcept _) fun fraction => ?_
      cases fraction
      · trivial
      · exact ⟨trivial, fun _ => trivial⟩
    · trivial
  · split_ifs
    · exact finishedRound_onlyCalls _ _ _ _ _
    · exact .bind (sleep_onlyCalls _) fun _ => trivial

theorem awaitRound_onlyCalls (jobId : String) (opts : AwaitOptions) (st : AwaitState) :
    (awaitRound rt jobId opts st).OnlyCalls NoUpload := by
  refine .bind (polledStop_onlyCalls _) fun stop => .bind (Prog.onlyCalls_raiseIf _ _) fun _ =>
    .bind (request_onlyCalls trivial) fun job => ?_
  cases job with
  | none => exact .bind (Prog.onlyCalls_raiseIf _ _) fun _ => .bind (sleep_onlyCalls _) fun _ => trivial
  | some job => exact presentRound_onlyCalls _ _ _ _ _

theorem awaitJob_onlyCalls (fuel : ℕ) (jobId : String) (opts : AwaitOptions) :
    (awaitJob rt fuel jobId opts).OnlyCalls NoUpload := by
  unfold awaitJob
  generalize { delay := opts.sleepS : AwaitState } = st
  induction fuel generalizing st with
  | zero => trivial
  | succ fuel ih =>
    refine .bind (awaitRound_onlyCalls _ _ _ _) fun round => ?_
    cases round with
    | inl result => trivial
    | inr next => exact ih next

theorem resolveMatches_onlyCalls (fuel : ℕ) (payload : Json) (opts : AwaitOptions) :
    (resolveMatches rt fuel payload opts).OnlyCalls NoUpload := by
  unfold resolveMatches
  split_ifs
  · trivial
  · split
    · trivial
    · refine .bind (awaitJob_onlyCalls _ _ _ _) fun result => ?_
      split_ifs <;> trivial

theorem matchSampleVs_onlyCalls (fuel : ℕ) (own other : ℤ) (params : MatchingParams)
    (opts : AwaitOptions) : (matchSampleVs rt fuel own other params opts).OnlyCalls NoUpload :=
  .bind (request_onlyCalls trivial) fun _ => resolveMatches_onlyCalls _ _ _ _

theorem matchSampleCorpus_onlyCalls (fuel : ℕ) (own : ℤ) (params : MatchingParams)
    (opts : AwaitOptions) : (matchSampleCorpus rt fuel own params opts).OnlyCalls NoUpload :=
  .bind (request_onlyCalls trivial) fun _ => resolveMatches_onlyCalls _ _ _ _

theorem awaitIndexing_onlyCalls (fuel : ℕ) (jobId : Option String) (opts : AwaitOptions) :
    (awaitIndexing rt fuel jobId opts).OnlyCalls NoUpload := by
  cases jobId with
  | none => trivial
  | some jobId => exact .bind (awaitJob_onlyCalls _ _ _ _) fun _ => trivial

theorem existingSample_onlyCalls (fuel : ℕ) (sampleInfo : Json) (sha256 : String)
    (opts : AwaitOptions) :
    (existingSample rt fuel sampleInfo sha256 opts).OnlyCalls NoUpload :=
  .bind (Prog.onlyCalls_ofExcept _) fun _ =>
    .bind (.bind (request_onlyCalls trivial) fun _ => trivial) fun _ =>
      .bind (awaitIndexing_onlyCalls _ _ _ _) fun _ => trivial

/-- Without `persist` a sample is never uploaded, whatever the server answers. -/
theorem ensureSample_onlyCalls (fuel : ℕ) (server : String) (report : SmdaReport)
    {labels : SampleLabels} (hpersist : labels.persist = false) (opts : AwaitOptions) :
    (ensureSample rt fuel server report labels opts).OnlyCalls NoUpload := by
  refine .bind (Prog.onlyCalls_raiseIf _ _) fun _ => .bind (request_onlyCalls trivial) fun existing => ?_
  cases existing with
  | some existing => exact existingSample_onlyCalls _ _ _ _ _
  | none =>
    simp only [hpersist]
    trivial

end Calls

end McritSimilarity

import McritSimilarity.Errors
import McritSimilarity.Lib.OrderedMap
import McritSimilarity.Lib.Prog
import McritSimilarity.Smda

/-!
# Jobs and the server interface

`SampleI` is what `SampleClient`, `should_stop`, `on_progress` and `time.sleep` offer to `jobs.py` and
`samples.py`.  `awaitJob` and `resolveMatches` are programs over it; the polling loop of `awaitJob`
takes the number of rounds as fuel.
-/

set_option autoImplicit false

namespace McritSimilarity

open Python

/-- The parameters of a matching request. -/
structure MatchingParams where
  minhashThreshold : ℤ
  pichashSize : ℤ
  bandMatchesRequired : ℤ
  deriving DecidableEq, Repr

/-- The document `add_report` uploads: the report with the labels of this upload. -/
structure Upload where
  report : SmdaReport
  family : String
  version : String
  deriving DecidableEq, Repr

/-- The requests of a client that the plugin makes. -/
inductive ServerOp where
  | getJobs (method : String) (sampleId : ℤ)
  | getSampleBySha256 (sha256 : String)
  | addReport (upload : Upload)
  | getJobData (jobId : String)
  | getResult (resultId : String)
  | getResultForJob (jobId : String)
  | requestMatchesForSampleVs (sampleId otherSampleId : ℤ) (params : MatchingParams)
  | requestMatchesForSample (sampleId : ℤ) (params : MatchingParams) (forceRecalculation : Bool)
  | getFunctionsByIds (functionIds : List ℤ)

/-- What a request returns.  `get_jobs` keeps only dictionaries, `get_sample_by_sha256` and
`get_job_data` return a dictionary or `None`, `add_report` a dictionary that has `sample_info`, and
`get_functions_by_ids` has integer keys. -/
@[reducible] def ServerOp.Result : ServerOp → Type
  | getJobs _ _ => List Json
  | getSampleBySha256 _ => Option Json
  | addReport _ => Json
  | getJobData _ => Option Json
  | getResult _ => Json
  | getResultForJob _ => Json
  | requestMatchesForSampleVs _ _ _ => Json
  | requestMatchesForSample _ _ _ => Json
  | getFunctionsByIds _ => OrderedMap ℤ Json

inductive SampleOp where
  | server (o : ServerOp)
  | shouldStop
  | onProgress (fraction : PyFloat)
  | sleep (seconds : ℚ)

@[reducible] def SampleOp.Ans : SampleOp → Type
  | server o => Except PyError o.Result
  | shouldStop => Bool
  | onProgress _ => Unit
  | sleep _ => Unit

def SampleI : Interface := ⟨SampleOp, SampleOp.Ans⟩

abbrev SampleProg (α : Type) := Prog SampleI PyError α

/-- A request: what it returns, or the error it raises. -/
def request (o : ServerOp) : SampleProg o.Result := Prog.call (I := SampleI) (.server o) Prog.ofExcept

/-- `value.get(key)` of a value that is known to be a dictionary. -/
def field (value : Json) (key : String) : Json :=
  match value.get key with
  | .ok v => v
  | .error _ => .null

/-- `value if isinstance(value, str) and value else None`. -/
def nonEmptyText : Json → Option String
  | .str s => if s = "" then none else some s
  | _ => none

variable (rt : Runtime)

/-! ## Job documents -/

/-- `_job_id_from`. -/
def jobIdFrom (payload : Json) : Option String :=
  match nonEmptyText payload with
  | some s => some s
  | none =>
    if ¬ payload.isDict then none
    else if (field payload "matches").truthy ∧ (field payload "info").truthy then none
    else
      let rawId := field payload "_id"
      let nested := if rawId.hasKey "$oid" then some (rt.str (field rawId "$oid")) else none
      (nonEmptyText (field payload "job_id")).or <| (nonEmptyText (field payload "jobId")).or <|
        (nonEmptyText rawId).or nested

def isMatchResult (payload : Json) : Bool :=
  payload.isDict && payload.hasKey "matches" && payload.hasKey "info"

inductive JobState where
  | inProgress
  | failed
  | queued
  | finished
  | terminated
  | unknown
  deriving DecidableEq, Repr

def jobState (job : Json) : JobState :=
  let finished := (field job "finished_at").truthy
  let terminated := (field job "terminated").truthy
  let locked := (field job "locked_by").truthy
  if (field job "started_at").truthy && locked && !(finished || terminated) then .inProgress
  else if (field job "attempts_left").eqInt 0 && !finished && !terminated then .failed
  else if !finished && !locked && !terminated then .queued
  else if finished && !terminated then .finished
  else if terminated then .terminated else .unknown

def jobFailed (job : Json) : Bool := jobState job = .failed && (field job "result").isNull

def jobTerminated (job : Json) : Bool :=
  (field job "terminated").truthy || (field job "is_terminated").truthy

def jobFinished (job : Json) : Bool :=
  !(field job "result").isNull || !(field job "finished_at").isNull ||
    (field job "is_finished").truthy

/-- `progress <= 1.0` and its cases; only a huge integer raises, in `float`. -/
def progressOf (progress : Json) (exact : PyFloat) : Except PyError (Option PyFloat) :=
  match exact with
  | .finite q =>
    if q < 0 then .ok none
    else if q ≤ 1 then uncaught (progress.toFloat.map some)
    else uncaught (progress.toFloat.map fun
      | .finite p => some (.finite (min 1 (p / 100)))
      | _ => some (.finite 1))
  | .negInf => .ok none
  -- `min(1.0, x)` is `1.0` for infinity and for NaN.
  | _ => .ok (some (.finite 1))

/-- `_job_progress`. -/
def jobProgress (job : Json) : Except PyError (Option PyFloat) :=
  match field job "progress" with
  | .bool b => progressOf (.bool b) (.finite (if b then 1 else 0))
  | .int n => progressOf (.int n) (.finite n)
  | .float x => progressOf (.float x) x
  | _ => .ok none

/-! ## Waiting -/

/-- The keyword arguments of `await_job`. -/
structure AwaitOptions where
  /-- Whether `should_stop` and `on_progress` are given. -/
  stops : Bool := true
  reports : Bool := true
  sleepS : ℚ := 1 / 4
  maxSleepS : ℚ := 2
  maxConsecutiveMissing : ℤ := 20

structure AwaitState where
  delay : ℚ
  missingCount : ℤ := 0
  unwrittenResults : ℤ := 0

def jobError (message : String) : PyError := .mcrit .job message

/-- `if should_stop and should_stop()`. -/
def polledStop (stops : Bool) : SampleProg Bool :=
  if stops then Prog.call (I := SampleI) .shouldStop Prog.ret else Prog.ret false

def sleep (seconds : ℚ) : SampleProg Unit := Prog.call (I := SampleI) (.sleep seconds) Prog.ret

/-- `if result is None: result = client.get_result_for_job(job_id)`. -/
def jobResultIfNull (jobId : String) (result : Json) : SampleProg Json :=
  if result.isNull then request (.getResultForJob jobId) else pure result

/-- The result a finished job names. -/
def writtenResult (jobId resultId : String) : SampleProg Json := do
  let result ← request (.getResult resultId)
  let result ← jobResultIfNull jobId result
  Prog.raiseIf result.isNull
    (jobError ("MCRIT job " ++ jobId ++ " result " ++ resultId ++ " was missing"))
  return result

/-- What a round of the polling loop comes to: the loop's result, or its next round. -/
abbrev Round := Json ⊕ AwaitState

/-- The rest of a round whose poll found no job document. -/
def missingRound (jobId : String) (opts : AwaitOptions) (st : AwaitState) : SampleProg Round := do
  let missing := st.missingCount + 1
  Prog.raiseIf (missing ≥ opts.maxConsecutiveMissing)
    (jobError ("MCRIT job " ++ jobId ++ " not found on server"))
  sleep opts.sleepS
  return .inr { st with missingCount := missing }

/-- A finished job whose document names no result. -/
def unwrittenRound (jobId : String) (opts : AwaitOptions) (st : AwaitState) (viaJob : Json) :
    SampleProg Round := do
  let unwritten := st.unwrittenResults + 1
  if ¬ viaJob.isNull then return .inl viaJob
  else do
    -- MCRIT's `Job.complete()` sets `finished_at` and `result` in two separate updates.
    Prog.raiseIf (unwritten ≥ opts.maxConsecutiveMissing)
      (jobError ("MCRIT job " ++ jobId ++ " finished without a result"))
    sleep opts.sleepS
    return .inr { st with unwrittenResults := unwritten }

def finishedRound (jobId : String) (opts : AwaitOptions) (st : AwaitState) (job : Json) :
    SampleProg Round :=
  if (field job "result").isNull then do
    let viaJob ← request (.getResultForJob jobId)
    unwrittenRound jobId opts st viaJob
  else do
    let result ← writtenResult jobId (rt.str (field job "result"))
    return .inl result

/-- `if on_progress: …`. -/
def reportProgress (opts : AwaitOptions) (job : Json) : SampleProg Unit :=
  if opts.reports then do
    match ← Prog.ofExcept (jobProgress job) with
    | some fraction => Prog.call (I := SampleI) (.onProgress fraction) Prog.ret
    | none => pure ()
  else pure ()

/-- The rest of a round whose poll returned a job document. -/
def presentRound (jobId : String) (opts : AwaitOptions) (st : AwaitState) (job : Json) :
    SampleProg Round := do
  reportProgress opts job
  Prog.raiseIf (jobTerminated job) (jobError ("MCRIT job " ++ jobId ++ " was terminated"))
  Prog.raiseIf (jobFailed job) (jobError ("MCRIT job " ++ jobId ++ " failed: " ++
    rt.str ((field job "last_error").orElse (.str "failed"))))
  if jobFinished job then finishedRound rt jobId opts { st with missingCount := 0 } job
  else do
    sleep st.delay
    return .inr { st with missingCount := 0, delay := min opts.maxSleepS (st.delay * 2) }

def awaitRound (jobId : String) (opts : AwaitOptions) (st : AwaitState) : SampleProg Round := do
  let stop ← polledStop opts.stops
  Prog.raiseIf stop (jobError "MCRIT job cancelled")
  match ← request (.getJobData jobId) with
  | none => missingRound jobId opts st
  | some job => presentRound rt jobId opts st job

/-- The loop of `await_job`, for at most `fuel` rounds. -/
def awaitLoop (jobId : String) (opts : AwaitOptions) : ℕ → AwaitState → SampleProg Json
  | 0, _ => Prog.spin
  | fuel + 1, st => do
    match ← awaitRound rt jobId opts st with
    | .inl result => pure result
    | .inr next => awaitLoop jobId opts fuel next

def awaitJob (fuel : ℕ) (jobId : String) (opts : AwaitOptions := {}) : SampleProg Json :=
  awaitLoop rt jobId opts fuel { delay := opts.sleepS }

def resolveMatches (fuel : ℕ) (payload : Json) (opts : AwaitOptions := {}) : SampleProg Json :=
  if isMatchResult payload then pure payload
  else match jobIdFrom rt payload with
    | none => Prog.raise (jobError "MCRIT matching response was neither a result nor a job id")
    | some jobId => do
      let result ← awaitJob rt fuel jobId opts
      if isMatchResult result then pure result
      else Prog.raise (jobError "MCRIT job finished but did not return a matching report")

end McritSimilarity

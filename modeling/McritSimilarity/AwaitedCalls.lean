import McritSimilarity.Samples

/-!
# What waiting for a job calls

The polling loop of `await_job` calls few operations.  A predicate that holds of these (`WaitPermits`) holds of
all that a wait calls, however many rounds it takes.
-/

set_option autoImplicit false

namespace McritSimilarity

open Python Prog

/-- `P` holds of whatever `await_job` may call with these arguments. -/
structure WaitPermits (opts : AwaitOptions) (P : SampleOp → Prop) : Prop where
  getJobData : ∀ jobId, P (.server (.getJobData jobId))
  getResult : ∀ resultId, P (.server (.getResult resultId))
  getResultForJob : ∀ jobId, P (.server (.getResultForJob jobId))
  shouldStop : P .shouldStop
  onProgress : opts.reports = true → ∀ fraction, P (.onProgress fraction)
  sleeps : ∀ seconds, P (.sleep seconds)

section WaitPermits

variable {rt : Runtime} {fuel : ℕ} {opts : AwaitOptions} {P : SampleOp → Prop} (h : WaitPermits opts P)

include h

theorem WaitPermits.sleep_calls (seconds : ℚ) : (sleep seconds).OnlyCalls P := ⟨h.sleeps seconds, fun _ => trivial⟩

theorem WaitPermits.finishedRound_calls (jobId : String) (st : AwaitState) (job : Json) :
    (finishedRound rt jobId opts st job).OnlyCalls P := by
  unfold finishedRound
  split_ifs
  · refine .bind (request_onlyCalls (h.getResultForJob jobId)) fun viaJob => ?_
    unfold unwrittenRound
    split_ifs
    · exact .bind (onlyCalls_raiseIf _ _) fun _ => .bind (h.sleep_calls _) fun _ => trivial
    · trivial
  · refine .bind (.bind (request_onlyCalls (h.getResult _)) fun result => .bind ?_ fun _ =>
      .bind (onlyCalls_raiseIf _ _) fun _ => trivial) fun _ => trivial
    unfold jobResultIfNull
    split_ifs
    · exact request_onlyCalls (h.getResultForJob jobId)
    · trivial

theorem WaitPermits.awaitRound_calls (jobId : String) (st : AwaitState) :
    (awaitRound rt jobId opts st).OnlyCalls P := by
  refine .bind ?_ fun stop => .bind (onlyCalls_raiseIf _ _) fun _ =>
    .bind (request_onlyCalls (h.getJobData jobId)) fun job => ?_
  · unfold polledStop
    split_ifs
    · exact ⟨h.shouldStop, fun _ => trivial⟩
    · trivial
  cases job with
  | none => exact .bind (onlyCalls_raiseIf _ _) fun _ => .bind (h.sleep_calls _) fun _ => trivial
  | some job =>
    refine .bind ?_ fun _ => .bind (onlyCalls_raiseIf _ _) fun _ => .bind (onlyCalls_raiseIf _ _) fun _ => ?_
    · unfold reportProgress
      split_ifs with hreports
      · refine .bind (onlyCalls_ofExcept _) fun fraction => ?_
        cases fraction with
        | none => trivial
        | some fraction => exact ⟨h.onProgress hreports fraction, fun _ => trivial⟩
      · trivial
    · split_ifs
      · exact h.finishedRound_calls _ _ _
      · exact .bind (h.sleep_calls _) fun _ => trivial

theorem WaitPermits.awaitJob_calls (jobId : String) : (awaitJob rt fuel jobId opts).OnlyCalls P := by
  unfold awaitJob
  generalize { delay := opts.sleepS : AwaitState } = st
  induction fuel generalizing st with
  | zero => trivial
  | succ fuel ih =>
    refine .bind (h.awaitRound_calls _ _) fun round => ?_
    cases round with
    | inl result => trivial
    | inr next => exact ih next

theorem WaitPermits.awaitIndexing_calls (jobId : Option String) :
    (awaitIndexing rt fuel jobId opts).OnlyCalls P := by
  cases jobId with
  | none => trivial
  | some jobId => exact .bind (h.awaitJob_calls jobId) fun _ => trivial

theorem WaitPermits.resolveMatches_calls (payload : Json) : (resolveMatches rt fuel payload opts).OnlyCalls P := by
  unfold resolveMatches
  split_ifs
  · trivial
  · split
    · trivial
    · refine .bind (h.awaitJob_calls _) fun result => ?_
      split_ifs <;> trivial

end WaitPermits

end McritSimilarity

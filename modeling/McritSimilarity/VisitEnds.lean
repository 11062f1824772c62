import McritSimilarity.JobPolling
import McritSimilarity.Lib.Spins
import McritSimilarity.VisitCalls

/-!
# Visits come to an end

The loop of `await_job` has no timeout.  `visitsEnd`: a visit that sees unfinished jobs only so often comes to
its verdict, whatever else its server answers, however many jobs it awaits and whatever goes wrong.
-/

set_option autoImplicit false

namespace McritSimilarity

open Python Prog

/-- A poll of a visit that shows its job unfinished. -/
def showsUnfinished : Event VisitI → Bool
  | ⟨.server _ (.getJobData _), .ok (some job)⟩ => isUnfinished job
  | _ => false

variable {rt : Runtime} {fuel n : ℕ} {config : ProviderConfig} {client : McritClient}

/-! ## Programs of a server -/

section Server

-- Visits leave `max_consecutive_missing` at its default.
variable {opts : AwaitOptions} (hmissing : opts.maxConsecutiveMissing = 20) (hfuel : (n + 21) * 20 < fuel)

include hmissing hfuel

/-- Polls that do not show the job unfinished use up little fuel. -/
theorem awaitJob_spinsAfter (jobId : String) :
    (awaitJob rt fuel jobId opts).SpinsAfter isUnfinishedPoll (n + 1) := by
  refine spinsAfter_of_completes fun tr htr => ?_
  by_contra hfew
  have hpolls := awaitJob_polls_le (by omega) htr (Nat.le_of_lt_succ (Nat.lt_of_not_le hfew))
  have hspent := (awaitLoop_cases htr).fuel_le rfl
  rw [hmissing] at hpolls
  omega

omit hmissing hfuel in

theorem request_spinsAfter (o : ServerOp) : (request o).SpinsAfter isUnfinishedPoll n :=
  fun a => spinsAfter_ofExcept (I := SampleI) a

theorem resolveMatches_spinsAfter (payload : Json) :
    (resolveMatches rt fuel payload opts).SpinsAfter isUnfinishedPoll (n + 1) := by
  unfold resolveMatches
  split_ifs
  · trivial
  · split
    · trivial
    · refine (awaitJob_spinsAfter hmissing hfuel _).bind fun result => ?_
      split_ifs <;> trivial

theorem awaitIndexing_spinsAfter (jobId : Option String) :
    (awaitIndexing rt fuel jobId opts).SpinsAfter isUnfinishedPoll (n + 1) := by
  cases jobId with
  | some jobId => exact (awaitJob_spinsAfter hmissing hfuel _).bind fun _ => trivial
  | none => trivial

theorem existingSample_spinsAfter (sampleInfo : Json) (sha256 : String) :
    (existingSample rt fuel sampleInfo sha256 opts).SpinsAfter isUnfinishedPoll (n + 1) := by
  have hpending : ∀ sampleId, (pendingIndexJob rt sampleId).SpinsAfter isUnfinishedPoll (n + 1) := fun _ =>
    (request_spinsAfter _).bind fun _ => trivial
  exact (spinsAfter_ofExcept _).bind fun _ => (hpending _).bind fun _ =>
    (awaitIndexing_spinsAfter hmissing hfuel _).bind fun _ => trivial

theorem ensureSample_spinsAfter (server : String) (report : SmdaReport) (labels : SampleLabels) :
    (ensureSample rt fuel server report labels opts).SpinsAfter isUnfinishedPoll (n + 1) := by
  refine (spinsAfter_raiseIf _ _).bind fun _ => (request_spinsAfter _).bind fun existing => ?_
  cases existing with
  | some existing => exact existingSample_spinsAfter hmissing hfuel _ _
  | none =>
    refine (spinsAfter_raiseIf _ _).bind fun _ => (request_spinsAfter _).bind fun added =>
      (spinsAfter_ofExcept _).bind fun sampleInfo => ?_
    split_ifs
    · exact existingSample_spinsAfter hmissing hfuel _ _
    · exact (spinsAfter_ofExcept _).bind fun _ => (awaitIndexing_spinsAfter hmissing hfuel _).bind fun _ => trivial

end Server

/-! ## Visits -/

theorem onServer_spinsAfter {α : Type} {start stop : ℚ} {p : SampleProg α} (hp : p.SpinsAfter isUnfinishedPoll n) :
    (onServer client start stop p).SpinsAfter showsUnfinished n := by
  refine hp.lift fun o a => ?_
  cases o with
  | server o =>
    cases o with
    | getJobData jobId =>
      obtain e | _ | job := a <;> rfl
    | _ => rfl
  | _ => rfl

theorem ask_spinsAfter (o : VisitOp) : (ask o).SpinsAfter showsUnfinished n := spinsAfter_op (I := VisitI) o

theorem advance_spinsAfter (progress : ℚ) : (advance progress).SpinsAfter showsUnfinished n :=
  (ask_spinsAfter _).bind fun _ => (ask_spinsAfter _).bind fun _ => spinsAfter_raiseIf _ _

theorem exportReport_spinsAfter (view : ViewId) : (exportReport view).SpinsAfter showsUnfinished n :=
  (ask_spinsAfter _).bind fun _ => spinsAfter_ofExcept _

theorem getOrSet_spinsAfter {ν : Type} {claim : VisitProg (Claim ν)} {store : ν → VisitProg Unit}
    {release : VisitProg Unit} {factory : VisitProg ν} (hclaim : claim.SpinsAfter showsUnfinished n)
    (hstore : ∀ value, (store value).SpinsAfter showsUnfinished n) (hrelease : release.SpinsAfter showsUnfinished n)
    (hfactory : factory.SpinsAfter showsUnfinished n) :
    (getOrSet claim store release factory).SpinsAfter showsUnfinished n := by
  refine hclaim.bind fun answer => ?_
  cases answer with
  | hit value => trivial
  | stopped => trivial
  | claimed =>
    refine SpinsAfter.tryFinally (hfactory.bind fun value => (hstore value).bind fun _ => ?_) hrelease
    trivial

section Await

variable (hfuel : (n + 21) * 20 < fuel)

include hfuel

theorem sample_spinsAfter (report : SmdaReport) (span : Span) :
    (sample rt fuel client config report span).SpinsAfter showsUnfinished (n + 1) :=
  getOrSet_spinsAfter (ask_spinsAfter _) (fun _ => ask_spinsAfter _) (ask_spinsAfter _)
    (onServer_spinsAfter (ensureSample_spinsAfter rfl hfuel _ _ _))

theorem incomingSampleIds_spinsAfter (views : List (Option ViewId)) (ids : Finset ℤ) :
    (incomingSampleIds rt fuel client config views ids).SpinsAfter showsUnfinished (n + 1) := by
  induction views generalizing ids with
  | nil => trivial
  | cons view views ih =>
    cases view with
    | none => trivial
    | some view =>
      exact (exportReport_spinsAfter view).bind fun report =>
        (sample_spinsAfter hfuel report none).bind fun ref => ih _

theorem corpusPayload_spinsAfter (toNode : SessionNode) (toSample : SampleRef) :
    (corpusPayload rt fuel client config toNode toSample).SpinsAfter showsUnfinished (n + 1) := by
  have hshared : ∀ ids, (sharedPayload rt fuel client config toSample ids).SpinsAfter showsUnfinished (n + 1) := by
    intro ids
    refine getOrSet_spinsAfter (ask_spinsAfter _) (fun payload => ?_) (ask_spinsAfter _) (onServer_spinsAfter ?_)
    · split_ifs
      · exact ask_spinsAfter _
      · trivial
    · exact (request_spinsAfter _).bind fun _ => resolveMatches_spinsAfter rfl hfuel _
  unfold corpusPayload
  split_ifs
  · trivial
  · refine SpinsAfter.tryCatch ((incomingSampleIds_spinsAfter hfuel _ _).bind fun ids => ?_) fun _ => trivial
    cases ids with
    | none => trivial
    | some ids => exact hshared ids

theorem matchPayload_spinsAfter (toNode : SessionNode) (fromSample toSample : SampleRef) :
    (matchPayload rt fuel client config toNode fromSample toSample).SpinsAfter showsUnfinished (n + 1) := by
  refine SpinsAfter.bind ?_ fun shared => ?_
  · split_ifs
    · exact corpusPayload_spinsAfter hfuel toNode toSample
    · trivial
  · split_ifs
    · exact (ask_spinsAfter _).bind fun _ => (spinsAfter_raiseIf _ _).bind fun _ => onServer_spinsAfter
        ((request_spinsAfter _).bind fun _ => resolveMatches_spinsAfter rfl hfuel _)
    · trivial

theorem visitSetup_spinsAfter (fromView toView : ViewId) :
    (visitSetup rt fuel fromView toView config).SpinsAfter showsUnfinished (n + 1) := by
  have hresolve : (resolve (fun corpus => ask (.endpoint corpus) >>= Prog.ofExcept) config).SpinsAfter
      showsUnfinished (n + 1) := by
    cases hbuiltin : isBuiltin config.server with
    | true =>
      rw [resolve_builtin hbuiltin]
      exact ((ask_spinsAfter (.endpoint _)).bind fun _ => spinsAfter_ofExcept _).bind fun _ => trivial
    | false =>
      rw [resolve_remote hbuiltin]
      trivial
  have hadvance := fun progress => advance_spinsAfter (n := n + 1) progress
  have hexport := fun view => exportReport_spinsAfter (n := n + 1) view
  refine (hadvance _).bind fun _ => (hexport _).bind fun fromReport => (hadvance _).bind fun _ =>
    (hexport _).bind fun toReport => (hadvance _).bind fun _ => hresolve.bind fun config => ?_
  -- The client is not looked into.
  generalize clientFor config = built
  exact (spinsAfter_ofExcept _).bind fun client => (sample_spinsAfter hfuel fromReport _).bind fun fromSample =>
    (hadvance _).bind fun _ => (sample_spinsAfter hfuel toReport _).bind fun toSample =>
    (hadvance _).bind fun _ => trivial

end Await

/-! ## From the payload on -/

theorem lookupTargets_spinsAfter (server : String) (fids : List ℤ) :
    (lookupTargets rt client server fids).SpinsAfter showsUnfinished n := by
  have hmissing : (missingOffsets server fids).SpinsAfter showsUnfinished n := by
    induction fids with
    | nil => trivial
    | cons fid fids ih => exact (ask_spinsAfter _).bind fun _ => ih.bind fun _ => trivial
  have hset : ∀ found, (setOffsets server found).SpinsAfter showsUnfinished n := fun found => by
    induction found with
    | nil => trivial
    | cons e found ih => exact (ask_spinsAfter _).bind fun _ => ih
  have hknown : ∀ known, (knownOffsets server fids known).SpinsAfter showsUnfinished n := by
    clear hmissing
    induction fids with
    | nil => exact fun _ => trivial
    | cons fid fids ih => exact fun _ => (ask_spinsAfter _).bind fun _ => ih _
  refine hmissing.bind fun missing => SpinsAfter.bind ?_ fun _ => hknown _
  unfold fetchOffsets
  split_ifs
  · trivial
  · exact (onServer_spinsAfter (request_spinsAfter _)).bind fun _ => hset _

theorem targetEntities_spinsAfter (fromNode : SessionNode) (view : ViewId) (report : SmdaReport)
    (matched : List FunctionMatch) : (targetEntities fromNode view report matched).SpinsAfter showsUnfinished n := by
  have hadd : ∀ index, (addMatchOnlyEntities fromNode view report matched index).SpinsAfter showsUnfinished n := by
    induction matched with
    | nil => exact fun _ => trivial
    | cons m matched ih =>
      intro index
      unfold addMatchOnlyEntities
      split
      · exact ih index
      · split_ifs
        · exact ih index
        · refine SpinsAfter.bind (((ask_spinsAfter _).bind fun found => ?_).bind fun found => ?_) fun _ => ih _
          · split_ifs
            · trivial
            · exact ask_spinsAfter _
          · split_ifs
            · exact (ask_spinsAfter _).bind fun _ => trivial
            · trivial
  exact (ask_spinsAfter _).bind fun _ =>
    ((ask_spinsAfter _).bind fun _ => hadd _).tryFinally (ask_spinsAfter _)

theorem emitMatches_spinsAfter (fromNode toNode : SessionNode) (matched : List FunctionMatch) (targets : Targets)
    (sourceIndex targetIndex : EntityIndex) :
    (emitMatches fromNode toNode matched targets sourceIndex targetIndex).SpinsAfter showsUnfinished n := by
  have hemit : ∀ pairs, (emitPairs fromNode toNode pairs).SpinsAfter showsUnfinished n := fun pairs => by
    induction pairs with
    | nil => trivial
    | cons pair pairs ih =>
      exact (ask_spinsAfter _).bind fun _ => (spinsAfter_raiseIf _ _).bind fun _ =>
        (ask_spinsAfter _).bind fun _ => ih.bind fun _ => trivial
  refine (ask_spinsAfter _).bind fun _ => (hemit _).bind fun emitted => ?_
  split_ifs
  · trivial
  · exact (ask_spinsAfter _).bind fun _ => trivial

theorem visitEdge_spinsAfter (hfuel : (n + 21) * 20 < fuel) (fromNode toNode : SessionNode) :
    (visitEdge rt fuel fromNode toNode config).SpinsAfter showsUnfinished (n + 1) := by
  unfold visitEdge
  split_ifs
  · trivial
  split
  · refine (visitSetup_spinsAfter hfuel _ _).bind fun s => (matchPayload_spinsAfter hfuel _ _ _).bind fun payload =>
      (advance_spinsAfter _).bind fun _ => (spinsAfter_ofExcept _).bind fun matched =>
      (lookupTargets_spinsAfter _ _).bind fun targets => (advance_spinsAfter _).bind fun _ =>
      (ask_spinsAfter _).bind fun listed => (targetEntities_spinsAfter _ _ _ _).bind fun targetIndex => ?_
    exact emitMatches_spinsAfter _ _ _ _ _ _
  · trivial

theorem visitFailed_settles (e : PyError) : (visitFailed e).Settles := by
  rcases visitFailed_cases e with heq | heq <;> rw [heq]
  · exact fun _ => trivial
  · trivial

/-- With rounds for `n` polls that show a job unfinished, a visit that sees no more of them returns `True` or
`False`. -/
theorem visitsEnd (hfuel : (n + 21) * 20 < fuel) {fromNode toNode : SessionNode} {tr : List (Event VisitI)}
    {out : Outcome PyError Bool} (hrun : Completes (performVisitNodeEdge rt fuel fromNode toNode config) tr out)
    (hunfinished : tr.countP showsUnfinished ≤ n) : ∃ verdict, out = .returned verdict :=
  (visitEdge_spinsAfter hfuel fromNode toNode).returned visitFailed_settles hrun hunfinished

/-- Two polls of the visit show a job unfinished, and one finds none. -/
theorem visitsEnd_jobsVisit : Completes jobsVisit jobsTrace (.returned true) ∧ jobsTrace.countP showsUnfinished = 2 ∧
    ∃ verdict, Outcome.returned true = (.returned verdict : Outcome PyError Bool) := by
  have hrun : Completes jobsVisit jobsTrace (.returned true) :=
    returned_jobsVisit ▸ completes_run jobsHandler jobsVisit polledJobs
  have hunfinished : jobsTrace.countP showsUnfinished = 2 := by decide +kernel
  exact ⟨hrun, hunfinished, visitsEnd (by decide) hrun hunfinished.le⟩

end McritSimilarity

import McritSimilarity.Provider

/-!
# What a visit calls

Which operations each part of a visit may call.  A predicate on operations permits a configuration when
it holds of every operation that neither uploads nor emits, and of what `ensure_sample` calls
under that configuration; then it holds of everything a visit calls before it emits its pairs.
-/

set_option autoImplicit false

namespace McritSimilarity

open Python Prog

def VisitOp.IsServer : VisitOp → Prop
  | .server _ _ => True
  | _ => False

def VisitOp.IsUpload : VisitOp → Prop
  | .server _ (.addReport _) => True
  | _ => False

def VisitOp.IsResult : VisitOp → Prop
  | .addResult _ _ _ _ => True
  | _ => False

/-- An operation with which a visit ends: its labels and its results. -/
def VisitOp.IsEmitted : VisitOp → Prop
  | .updateLabels _ => True
  | .addResult _ _ _ _ => True
  | _ => False

/-- An operation of one of the three caches. -/
def VisitOp.IsCached : VisitOp → Prop
  | .claimSample _ => True
  | .storeSample _ _ => True
  | .releaseSample _ => True
  | .claimCorpus _ => True
  | .storeCorpus _ _ => True
  | .releaseCorpus _ => True
  | .getOffset _ => True
  | .setOffset _ _ => True
  | _ => False

/-- An operation that stores the offset of a function. -/
def VisitOp.StoresOffset : VisitOp → Prop
  | .setOffset _ _ => True
  | _ => False

theorem VisitOp.IsUpload.isServer {o : VisitOp} (h : o.IsUpload) : o.IsServer := by
  cases o with
  | server client o => trivial
  | _ => exact h

theorem VisitOp.IsCached.not_isUpload {o : VisitOp} (h : o.IsCached) : ¬ o.IsUpload := by
  intro hupload
  cases o <;> first | exact h | exact hupload

theorem VisitOp.IsCached.not_isResult {o : VisitOp} (h : o.IsCached) : ¬ o.IsResult := by
  intro hresult
  cases o <;> first | exact h | exact hresult

theorem VisitOp.IsResult.isEmitted {o : VisitOp} (h : o.IsResult) : o.IsEmitted := by
  cases o with
  | addResult => trivial
  | _ => exact h.elim

/-- Every operation that neither uploads, emits nor uses a cache satisfies `P`. -/
abbrev Plain (P : VisitOp → Prop) : Prop :=
  ∀ o, ¬ VisitOp.IsUpload o → ¬ VisitOp.IsEmitted o → ¬ VisitOp.IsCached o → P o

/-- `Plain` without the operations of the server. -/
abbrev Ambient (P : VisitOp → Prop) : Prop :=
  ∀ o, ¬ VisitOp.IsServer o → ¬ VisitOp.IsEmitted o → ¬ VisitOp.IsCached o → P o

theorem Plain.ambient {P : VisitOp → Prop} (hP : Plain P) : Ambient P :=
  fun o ho => hP o fun hupload => ho hupload.isServer

/-- Every operation of a cache satisfies `P`. -/
abbrev Caches (P : VisitOp → Prop) : Prop := ∀ o, VisitOp.IsCached o → P o

/-- Every operation of a cache that stores no offset satisfies `P`. -/
abbrev Claims (P : VisitOp → Prop) : Prop := ∀ o, VisitOp.IsCached o → ¬ VisitOp.StoresOffset o → P o

structure Permits (rt : Runtime) (fuel : ℕ) (config : ProviderConfig) (P : VisitOp → Prop) : Prop where
  plain : Plain P
  claims : Claims P
  ensure : ∀ (client : McritClient) (report : SmdaReport) (start stop : ℚ) (opts : AwaitOptions),
    (onServer client start stop (ensureSample rt fuel client.mcritServer report (sampleLabels config)
      opts)).OnlyCalls P

section VisitCalls

variable {rt : Runtime} {fuel : ℕ} {config : ProviderConfig} {P : VisitOp → Prop}

theorem ask_onlyCalls {o : VisitOp} (h : P o) : (ask o).OnlyCalls P := onlyCalls_op (I := VisitI) h

theorem advance_onlyCalls (hP : Ambient P) (progress : ℚ) : (advance progress).OnlyCalls P :=
  .bind (ask_onlyCalls (hP _ id id id)) fun _ => .bind (ask_onlyCalls (hP _ id id id)) fun _ =>
    onlyCalls_raiseIf _ _

theorem visitFailed_onlyCalls (h : P .stopRequested) (e : PyError) : (visitFailed e).OnlyCalls P := by
  rcases visitFailed_cases e with heq | heq <;> rw [heq]
  · exact .bind (ask_onlyCalls h) fun _ => trivial
  · trivial

theorem onServer_onlyCalls (hP : Plain P) {α : Type} {client : McritClient} {start stop : ℚ}
    {p : SampleProg α} (h : p.OnlyCalls NoUpload) : (onServer client start stop p).OnlyCalls P := by
  refine h.lift fun o ho => ?_
  cases o with
  | server o =>
    cases o with
    | addReport upload => exact ho.elim
    | _ => exact hP _ id id id
  | _ => exact hP _ id id id

theorem sample_onlyCalls (h : Permits rt fuel config P) (client : McritClient) (report : SmdaReport)
    (span : Span) : (sample rt fuel client config report span).OnlyCalls P :=
  getOrSet_onlyCalls (ask_onlyCalls (h.claims _ trivial id)) (fun _ => ask_onlyCalls (h.claims _ trivial id))
    (ask_onlyCalls (h.claims _ trivial id)) (h.ensure _ _ _ _ _)

theorem exportReport_onlyCalls (hP : Ambient P) (view : ViewId) : (exportReport view).OnlyCalls P :=
  .bind (ask_onlyCalls (hP _ id id id)) fun _ => onlyCalls_ofExcept _

theorem incomingSampleIds_onlyCalls (h : Permits rt fuel config P) (client : McritClient)
    (views : List (Option ViewId)) (ids : Finset ℤ) :
    (incomingSampleIds rt fuel client config views ids).OnlyCalls P := by
  induction views generalizing ids with
  | nil => trivial
  | cons view views ih =>
    cases view with
    | none => trivial
    | some view =>
      exact .bind (exportReport_onlyCalls h.plain.ambient view) fun report =>
        .bind (sample_onlyCalls h client report none) fun ref => ih _

theorem sharedPayload_onlyCalls (hP : Plain P) (hclaims : Claims P) (client : McritClient) (toSample : SampleRef)
    (ids : Finset ℤ) : (sharedPayload rt fuel client config toSample ids).OnlyCalls P := by
  refine getOrSet_onlyCalls (ask_onlyCalls (hclaims _ trivial id)) (fun payload => ?_)
    (ask_onlyCalls (hclaims _ trivial id)) (onServer_onlyCalls hP (matchSampleCorpus_onlyCalls _ _ _ _ _))
  split_ifs
  · exact ask_onlyCalls (hclaims _ trivial id)
  · trivial

theorem corpusPayload_onlyCalls (h : Permits rt fuel config P) (client : McritClient)
    (toNode : SessionNode) (toSample : SampleRef) :
    (corpusPayload rt fuel client config toNode toSample).OnlyCalls P := by
  unfold corpusPayload
  split_ifs
  · trivial
  · refine .tryCatch ?_ fun _ => trivial
    refine .bind (incomingSampleIds_onlyCalls h client _ _) fun ids => ?_
    cases ids with
    | none => trivial
    | some ids => exact sharedPayload_onlyCalls h.plain h.claims client toSample ids

theorem matchPayload_onlyCalls (h : Permits rt fuel config P) (client : McritClient)
    (toNode : SessionNode) (fromSample toSample : SampleRef) :
    (matchPayload rt fuel client config toNode fromSample toSample).OnlyCalls P := by
  refine .bind ?_ fun shared => ?_
  · split_ifs
    · exact corpusPayload_onlyCalls h client toNode toSample
    · trivial
  · split_ifs
    · exact .bind (ask_onlyCalls (h.plain _ id id id)) fun _ => .bind (onlyCalls_raiseIf _ _) fun _ =>
        onServer_onlyCalls h.plain (matchSampleVs_onlyCalls _ _ _ _ _ _)
    · trivial

/-- A setup calls what its own configuration permits, once the built-in server is resolved. -/
theorem visitSetup_onlyCalls (fromView toView : ViewId) (hP : Plain P)
    (h : ∀ config', (isBuiltin config.server = false → config' = config) →
      Permits rt fuel config' P) : (visitSetup rt fuel fromView toView config).OnlyCalls P := by
  have hresolve : (resolve (fun corpus => ask (.endpoint corpus) >>= Prog.ofExcept) config).OnlyCalls
      P := onlyCalls_resolve (I := VisitI)
    (fun corpus => .bind (ask_onlyCalls (hP _ id id id)) fun _ => onlyCalls_ofExcept _) config
  have hreturns : (resolve (fun corpus => ask (.endpoint corpus) >>= Prog.ofExcept)
      config : VisitProg _).Returns fun config' => isBuiltin config.server = false → config' = config := by
    cases hb : isBuiltin config.server with
    | false =>
      rw [resolve_remote hb]
      exact fun _ => rfl
    | true => exact (returns_true _).mono fun _ _ h => by cases h
  have hadvance := fun progress => advance_onlyCalls hP.ambient progress
  have hexport := fun view => exportReport_onlyCalls hP.ambient view
  refine .bind (hadvance _) fun _ => .bind (hexport _) fun _ =>
    .bind (hadvance _) fun _ => .bind (hexport _) fun _ =>
    .bind (hadvance _) fun _ => .bind_returns hresolve hreturns fun config' hconfig' => ?_
  -- The client is not looked into.
  generalize clientFor config' = built
  exact .bind (onlyCalls_ofExcept _) fun client => .bind (sample_onlyCalls (h _ hconfig') client _ _)
    fun _ => .bind (hadvance _) fun _ =>
    .bind (sample_onlyCalls (h _ hconfig') client _ _) fun _ =>
    .bind (hadvance _) fun _ => trivial

/-- Without the built-in server the visit uses the configuration it read. -/
theorem returns_visitSetup (rt : Runtime) (fuel : ℕ) (hserver : isBuiltin config.server = false)
    (fromView toView : ViewId) :
    (visitSetup rt fuel fromView toView config).Returns fun s => s.config = config := by
  unfold visitSetup
  simp only [resolve_remote hserver, pure_eq_ret, ret_bind]
  generalize clientFor config = built
  exact .bind (returns_true _) fun _ _ => .bind (returns_true _) fun _ _ =>
    .bind (returns_true _) fun _ _ => .bind (returns_true _) fun _ _ =>
    .bind (returns_true _) fun _ _ => .bind (returns_true _) fun _ _ =>
    .bind (returns_true _) fun _ _ => .bind (returns_true _) fun _ _ =>
    .bind (returns_true _) fun _ _ => .bind (returns_true _) fun _ _ => rfl

/-! ## From the payload on -/

theorem missingOffsets_onlyCalls (hcaches : Caches P) (server : String) (fids : List ℤ) :
    (missingOffsets server fids).OnlyCalls P := by
  induction fids with
  | nil => trivial
  | cons fid fids ih => exact .bind (ask_onlyCalls (hcaches _ trivial)) fun _ => .bind ih fun _ => trivial

theorem knownOffsets_onlyCalls (hcaches : Caches P) (server : String) (fids : List ℤ) (known : Targets) :
    (knownOffsets server fids known).OnlyCalls P := by
  induction fids generalizing known with
  | nil => trivial
  | cons fid fids ih => exact .bind (ask_onlyCalls (hcaches _ trivial)) fun _ => ih _

theorem setOffsets_onlyCalls (hcaches : Caches P) (server : String) (found : List (ℤ × ℤ × String)) :
    (setOffsets server found).OnlyCalls P := by
  induction found with
  | nil => trivial
  | cons e found ih => exact .bind (ask_onlyCalls (hcaches _ trivial)) fun _ => ih

theorem lookupTargets_onlyCalls (hP : Plain P) (hcaches : Caches P) (client : McritClient) (server : String)
    (fids : List ℤ) : (lookupTargets rt client server fids).OnlyCalls P := by
  refine .bind (missingOffsets_onlyCalls hcaches server fids) fun missing => .bind ?_ fun _ =>
    knownOffsets_onlyCalls hcaches server fids _
  unfold fetchOffsets
  split_ifs
  · trivial
  · exact .bind (onServer_onlyCalls hP (request_onlyCalls trivial)) fun _ =>
      setOffsets_onlyCalls hcaches _ _

theorem addMatchOnlyEntities_onlyCalls (hfunctionAt : ∀ view address, P (.functionAt view address))
    (hcreate : ∀ nodeId address name, P (.createEntity nodeId address name)) (fromNode : SessionNode)
    (view : ViewId) (report : SmdaReport) (matched : List FunctionMatch) (index : EntityIndex) :
    (addMatchOnlyEntities fromNode view report matched index).OnlyCalls P := by
  induction matched generalizing index with
  | nil => trivial
  | cons m matched ih =>
    unfold addMatchOnlyEntities
    split
    · exact ih index
    · split_ifs
      · exact ih index
      · refine .bind (.bind (.bind (ask_onlyCalls (hfunctionAt _ _)) fun found => ?_) fun found => ?_)
          fun _ => ih _
        · split_ifs
          · trivial
          · exact ask_onlyCalls (hfunctionAt _ _)
        · split_ifs
          · exact .bind (ask_onlyCalls (hcreate _ _ _)) fun _ => trivial
          · trivial

theorem targetEntities_onlyCalls (hP : Ambient P) (fromNode : SessionNode) (view : ViewId)
    (report : SmdaReport) (matched : List FunctionMatch) :
    (targetEntities fromNode view report matched).OnlyCalls P :=
  .bind (ask_onlyCalls (hP _ id id id)) fun _ => .tryFinally
    (.bind (ask_onlyCalls (hP _ id id id)) fun _ => addMatchOnlyEntities_onlyCalls
      (fun _ _ => hP _ id id id) (fun _ _ _ => hP _ id id id) _ _ _ _ _)
    (ask_onlyCalls (hP _ id id id))

theorem emitPairs_onlyCalls (hP : ∀ o, ¬ VisitOp.IsServer o → ¬ VisitOp.IsCached o → P o)
    (fromNode toNode : SessionNode) (pairs : List MatchPair) : (emitPairs fromNode toNode pairs).OnlyCalls P := by
  induction pairs with
  | nil => trivial
  | cons pair pairs ih =>
    exact .bind (ask_onlyCalls (hP _ id id)) fun _ => .bind (onlyCalls_raiseIf _ _) fun _ =>
      .bind (ask_onlyCalls (hP _ id id)) fun _ => .bind ih fun _ => trivial

theorem emitMatches_onlyCalls (hP : ∀ o, ¬ VisitOp.IsServer o → ¬ VisitOp.IsCached o → P o)
    (fromNode toNode : SessionNode) (matched : List FunctionMatch) (targets : Targets)
    (sourceIndex targetIndex : EntityIndex) :
    (emitMatches fromNode toNode matched targets sourceIndex targetIndex).OnlyCalls P := by
  refine .bind (ask_onlyCalls (hP _ id id)) fun _ => .bind (emitPairs_onlyCalls hP _ _ _) fun emitted => ?_
  split_ifs
  · trivial
  · exact .bind (ask_onlyCalls (hP _ id id)) fun _ => trivial

theorem visitPayload_onlyCalls (hP : ∀ o, ¬ VisitOp.IsUpload o → P o)
    (fromNode toNode : SessionNode) (fromView : ViewId) (config : ProviderConfig)
    (client : McritClient) (report : SmdaReport) (fromSample : SampleRef) (payload : Json) :
    (visitPayload rt fromNode toNode fromView config client report fromSample payload).OnlyCalls P := by
  have hplain : Plain P := fun o ho _ _ => hP o ho
  have hcaches : Caches P := fun o ho => hP o ho.not_isUpload
  exact .bind (onlyCalls_ofExcept _) fun matched =>
    .bind (lookupTargets_onlyCalls hplain hcaches client _ _) fun targets =>
    .bind (advance_onlyCalls hplain.ambient _) fun _ => .bind (ask_onlyCalls (hP _ id)) fun listed =>
    .bind (targetEntities_onlyCalls hplain.ambient _ _ _ _) fun targetIndex =>
      emitMatches_onlyCalls (fun o ho _ => hP o fun hupload => ho hupload.isServer) _ _ _ _ _ _

end VisitCalls

/-! ## Executions -/

theorem exec_ask (o : VisitOp) (a : o.Ans) : Exec (ask o) [⟨o, a⟩] (.returned a) :=
  .call (I := VisitI) a (.ret a)

theorem exec_advance (progress : ℚ) : Exec (advance progress)
    [⟨.setProgress (.finite progress), ()⟩, ⟨.stopRequested, false⟩] (.returned ()) :=
  (exec_ask (.setProgress _) ()).bind ((exec_ask .stopRequested false).bind (.ret ()))

theorem exec_exportReport (view : ViewId) (report : SmdaReport) : Exec (exportReport view)
    [⟨.exportReport view, Except.ok report⟩] (.returned report) :=
  (exec_ask (.exportReport view) (Except.ok report)).bind (.ret report)

/-- The answers to a visit that finds nothing, on a server that refuses everything. -/
def idleAnswer : (o : VisitOp) → o.Ans
  | .server _ _ => .error (unavailable "")
  | .stopRequested => false
  | .setProgress _ => ()
  | .sleep _ => ()
  | .exportReport _ => .error (unavailable "")
  | .endpoint _ => .error (unavailable "")
  | .claimSample _ => .stopped
  | .storeSample _ _ => ()
  | .releaseSample _ => ()
  | .claimCorpus _ => .stopped
  | .storeCorpus _ _ => ()
  | .releaseCorpus _ => ()
  | .getOffset _ => none
  | .setOffset _ _ => ()
  | .entities _ => []
  | .lockEntities _ => ()
  | .unlockEntities _ => ()
  | .functionAt _ _ => false
  | .createEntity _ _ _ => 0
  | .updateLabels _ => ()
  | .addResult _ _ _ _ => 0

/-! ## A visit that waits for two jobs -/

def halfDone : Json := .dict [("progress", .float (.finite (1 / 2)))]

def allDone : Json := .dict [("finished_at", .str "2024-01-01"), ("result", .str "r")]

/-- One function of the source, matched with one of the target. -/
def matchedPayload : Json :=
  .dict [("info", .dict []), ("matches", .dict [("functions", .list [.dict [("offset", .int 0x1000), ("fid", .int 1),
    ("matches", .list [.list [.int 0, .int 5, .int 6, .float (.finite 90), .int 1]])]])])]

/-- The target file is uploaded and indexed, and then matched with the source file, which is known.  The polls show
the jobs of the state, one after the other. -/
def jobsHandler : Handler VisitI (List (Option Json))
  | .exportReport view, jobs => (.ok { emptyReport with sha256 := if view = 0 then "aa" else "bb" }, jobs)
  | .claimSample key, jobs => (if key.2 = "aa" then .claimed else .hit ⟨7, "bb", true⟩, jobs)
  | .server _ (.getSampleBySha256 _), jobs => (.ok none, jobs)
  | .server _ (.addReport _), jobs =>
    (.ok (.dict [("sample_info", .dict [("sample_id", .int 5)]), ("job_id", .str "i")]), jobs)
  | .server _ (.requestMatchesForSampleVs _ _ _), jobs => (.ok (.str "m"), jobs)
  | .server _ (.getJobData _), jobs => (.ok (jobs.headD none), jobs.tail)
  | .server _ (.getResult _), jobs => (.ok matchedPayload, jobs)
  | .getOffset _, jobs => (some (0x2000, ""), jobs)
  | .entities nodeId, jobs =>
    ([if nodeId = 3 then (10, some ⟨true, 0x1000, "f"⟩) else (20, some ⟨true, 0x2000, "g"⟩)], jobs)
  | .addResult _ _ _ _, jobs => ((1 : ℤ), jobs)
  | o, jobs => (idleAnswer o, jobs)

def polledJobs : List (Option Json) := [some halfDone, some allDone, none, some halfDone, some allDone]

def jobsVisit : VisitProg Bool :=
  performVisitNodeEdge ⟨fun _ => none, fun _ => ""⟩ 461 ⟨7, some 0, [], []⟩ ⟨3, some 1, [10], []⟩
    { server := remoteServer, persistSamples := true }

def jobsTrace : List (Event VisitI) := jobsVisit.runTrace jobsHandler polledJobs

theorem returned_jobsVisit : (jobsVisit.run jobsHandler polledJobs).1 = .returned true := by
  with_unfolding_all rfl

theorem exec_jobsVisit : Exec jobsVisit jobsTrace (.returned true) :=
  returned_jobsVisit ▸ exec_run jobsHandler jobsVisit polledJobs

end McritSimilarity

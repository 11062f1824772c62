import McritSimilarity.AwaitedCalls
import McritSimilarity.Lib.Costs
import McritSimilarity.VisitCalls
import McritSimilarity.VisitResults

/-!
# What a visit asks of its server

The calls of an edge visit to its client, but the polls of its jobs.  `visitsAskLittle`: however a visit goes, it
ensures its two samples, and those of the incoming nodes when these share one corpus query, each with at most one
upload and two look-ups; it starts at most one matching job, or two when a corpus query comes to nothing; and it
looks functions up at most once.
-/

set_option autoImplicit false

namespace McritSimilarity

open Python Prog

/-- The work of a request on the server: that of an upload, of a matching job or of a look-up.  Polls cost nothing. -/
def ServerOp.cost (upload matching other : ℕ) : ServerOp → ℕ
  | getJobs _ _ => other
  | getSampleBySha256 _ => other
  | addReport _ => upload
  | getJobData _ => 0
  | getResult _ => 0
  | getResultForJob _ => 0
  | requestMatchesForSampleVs _ _ _ => matching
  | requestMatchesForSample _ _ _ => matching
  | getFunctionsByIds _ => other

def SampleOp.cost (upload matching other : ℕ) : SampleOp → ℕ
  | server o => o.cost upload matching other
  | _ => 0

def VisitOp.cost (upload matching other : ℕ) : VisitOp → ℕ
  | server _ o => o.cost upload matching other
  | _ => 0

/-- The edges into the node may share one query of the corpus. -/
def SharesQuery (config : ProviderConfig) (toNode : SessionNode) : Prop :=
  config.queryPerNode = true ∧ 2 ≤ toNode.incomingViews.length

instance (config : ProviderConfig) (toNode : SessionNode) : Decidable (SharesQuery config toNode) :=
  inferInstanceAs (Decidable (_ ∧ _))

/-- What `ensure_sample` may cost: an upload, and two look-ups. -/
def sampleBudget (upload other : ℕ) : ℕ := upload + 2 * other

/-- What `_match_payload` may cost. -/
def payloadBudget (config : ProviderConfig) (toNode : SessionNode) (upload matching other : ℕ) : ℕ :=
  if SharesQuery config toNode then toNode.incomingViews.length * sampleBudget upload other + 2 * matching
  else matching

def visitBudget (config : ProviderConfig) (toNode : SessionNode) (upload matching other : ℕ) : ℕ :=
  2 * sampleBudget upload other + payloadBudget config toNode upload matching other + other

variable {rt : Runtime} {fuel : ℕ} {upload matching other : ℕ}

/-! ## Waiting is free -/

section Server

variable {opts : AwaitOptions}

theorem waitPermits_cost : WaitPermits opts fun o => SampleOp.cost upload matching other o = 0 :=
  ⟨fun _ => rfl, fun _ => rfl, fun _ => rfl, rfl, fun _ _ => rfl, fun _ => rfl⟩

/-! ## Requests -/

theorem request_costs {o : ServerOp} :
    (request o).CostsAtMost (SampleOp.cost upload matching other) (o.cost upload matching other) :=
  ⟨le_rfl, fun a => by cases a <;> trivial⟩

theorem ofExcept_costs {α : Type} (r : Except PyError α) :
    (Prog.ofExcept r : SampleProg α).CostsAtMost (SampleOp.cost upload matching other) 0 :=
  (onlyCalls_ofExcept r).costs

theorem resolveMatches_costs (payload : Json) :
    (resolveMatches rt fuel payload opts).CostsAtMost (SampleOp.cost upload matching other) 0 :=
  (waitPermits_cost.resolveMatches_calls payload).costs

theorem matchSampleVs_costs (own otherId : ℤ) (params : MatchingParams) :
    (matchSampleVs rt fuel own otherId params opts).CostsAtMost (SampleOp.cost upload matching other) matching :=
  request_costs.bind_free fun _ => resolveMatches_costs _

theorem matchSampleCorpus_costs (own : ℤ) (params : MatchingParams) :
    (matchSampleCorpus rt fuel own params opts).CostsAtMost (SampleOp.cost upload matching other) matching :=
  request_costs.bind_free fun _ => resolveMatches_costs _

theorem awaitIndexing_costs (jobId : Option String) :
    (awaitIndexing rt fuel jobId opts).CostsAtMost (SampleOp.cost upload matching other) 0 :=
  (waitPermits_cost.awaitIndexing_calls jobId).costs

theorem existingSample_costs (sampleInfo : Json) (sha256 : String) :
    (existingSample rt fuel sampleInfo sha256 opts).CostsAtMost (SampleOp.cost upload matching other) other := by
  have hpending : ∀ sampleId, (pendingIndexJob rt sampleId).CostsAtMost (SampleOp.cost upload matching other) other :=
    fun _ => request_costs.bind_free fun _ => trivial
  refine (ofExcept_costs _).free_bind fun sampleId => ?_
  refine (hpending sampleId).bind_free fun jobId => ?_
  exact (awaitIndexing_costs jobId).bind_free fun _ => trivial

theorem uploadSample_costs (report : SmdaReport) (labels : SampleLabels) :
    (uploadSample rt fuel report labels opts).CostsAtMost (SampleOp.cost upload matching other) (upload + other) := by
  refine request_costs.bind fun added => ?_
  refine (ofExcept_costs _).free_bind fun sampleInfo => ?_
  split_ifs
  · exact existingSample_costs sampleInfo report.sha256
  · refine (ofExcept_costs _).bind_le (n := 0) (fun sampleId => ?_) (Nat.zero_le _)
    exact (awaitIndexing_costs _).bind_free fun _ => trivial

theorem ensureSample_costs (server : String) (report : SmdaReport) (labels : SampleLabels) :
    (ensureSample rt fuel server report labels opts).CostsAtMost (SampleOp.cost upload matching other)
      (sampleBudget upload other) := by
  have hraise : ∀ c [Decidable c] e, (raiseIf c e : SampleProg Unit).CostsAtMost (SampleOp.cost upload matching other)
      0 := fun c _ e => (onlyCalls_raiseIf c e).costs
  unfold sampleBudget
  refine (hraise _ _).free_bind fun _ => ?_
  refine request_costs.bind_le (n := upload + other) (fun existing => ?_) (by simp only [ServerOp.cost]; omega)
  cases existing with
  | some existing => exact (existingSample_costs existing report.sha256).mono (Nat.le_add_left _ _)
  | none =>
    exact (hraise _ _).free_bind fun _ => uploadSample_costs report labels

end Server

/-! ## Operations without requests -/

theorem cost_of_not_isServer {o : VisitOp} (ho : ¬ o.IsServer) : VisitOp.cost upload matching other o = 0 := by
  cases o with
  | server => exact absurd trivial ho
  | _ => rfl

theorem ambient_cost : Ambient fun o => VisitOp.cost upload matching other o = 0 :=
  fun _ ho _ _ => cost_of_not_isServer ho

theorem caches_cost : Caches fun o => VisitOp.cost upload matching other o = 0 := by
  intro o ho
  cases o with
  | server => exact ho.elim
  | _ => rfl

/-- A program that sends no request. -/
theorem costs_of_onlyCalls {α : Type} {p : VisitProg α}
    (hp : p.OnlyCalls fun o => VisitOp.cost upload matching other o = 0) :
    p.CostsAtMost (VisitOp.cost upload matching other) 0 :=
  hp.costs

theorem onServer_costs {α : Type} {client : McritClient} {start stop : ℚ} {p : SampleProg α} {n : ℕ}
    (hp : p.CostsAtMost (SampleOp.cost upload matching other) n) :
    (onServer client start stop p).CostsAtMost (VisitOp.cost upload matching other) n :=
  hp.lift fun o => by cases o <;> rfl

theorem getOrSet_costs {ν : Type} {claim : VisitProg (Claim ν)} {store : ν → VisitProg Unit}
    {release : VisitProg Unit} {factory : VisitProg ν} {n : ℕ}
    (hclaim : claim.CostsAtMost (VisitOp.cost upload matching other) 0)
    (hstore : ∀ value, (store value).CostsAtMost (VisitOp.cost upload matching other) 0)
    (hrelease : release.CostsAtMost (VisitOp.cost upload matching other) 0)
    (hfactory : factory.CostsAtMost (VisitOp.cost upload matching other) n) :
    (getOrSet claim store release factory).CostsAtMost (VisitOp.cost upload matching other) n := by
  refine hclaim.free_bind fun answer => ?_
  cases answer with
  | hit value => trivial
  | stopped => trivial
  | claimed =>
    refine CostsAtMost.tryFinally (hfactory.bind_free fun value => ?_) hrelease
    exact (hstore value).bind_free fun _ => trivial

/-! ## Visits -/

section Visit

variable {config : ProviderConfig} {client : McritClient}

theorem ask_costs {o : VisitOp} (ho : VisitOp.cost upload matching other o = 0) :
    (ask o).CostsAtMost (VisitOp.cost upload matching other) 0 :=
  costs_of_onlyCalls (ask_onlyCalls ho)

theorem advance_costs (progress : ℚ) : (advance progress).CostsAtMost (VisitOp.cost upload matching other) 0 :=
  costs_of_onlyCalls (advance_onlyCalls ambient_cost progress)

theorem exportReport_costs (view : ViewId) :
    (exportReport view).CostsAtMost (VisitOp.cost upload matching other) 0 :=
  costs_of_onlyCalls (exportReport_onlyCalls ambient_cost view)

theorem sample_costs (report : SmdaReport) (span : Span) :
    (sample rt fuel client config report span).CostsAtMost (VisitOp.cost upload matching other)
      (sampleBudget upload other) :=
  getOrSet_costs (ask_costs rfl) (fun _ => ask_costs rfl) (ask_costs rfl) (onServer_costs (ensureSample_costs _ _ _))

theorem incomingSampleIds_costs (views : List (Option ViewId)) (ids : Finset ℤ) :
    (incomingSampleIds rt fuel client config views ids).CostsAtMost (VisitOp.cost upload matching other)
      (views.length * sampleBudget upload other) := by
  induction views generalizing ids with
  | nil => trivial
  | cons view views ih =>
    rw [List.length_cons, Nat.succ_mul]
    cases view with
    | none => trivial
    | some view =>
      exact (exportReport_costs view).free_bind fun report =>
        (sample_costs report none).bind_le (fun ref => ih _) (Nat.add_comm _ _).le

theorem sharedPayload_costs (toSample : SampleRef) (ids : Finset ℤ) :
    (sharedPayload rt fuel client config toSample ids).CostsAtMost (VisitOp.cost upload matching other) matching := by
  refine getOrSet_costs (ask_costs rfl) (fun payload => ?_) (ask_costs rfl)
    (onServer_costs (matchSampleCorpus_costs _ _))
  split_ifs
  · exact ask_costs rfl
  · trivial

/-- A corpus query that fails has still been asked. -/
theorem corpusPayload_costs (toNode : SessionNode) (toSample : SampleRef) :
    (corpusPayload rt fuel client config toNode toSample).CostsAtMost (VisitOp.cost upload matching other)
      (if 2 ≤ toNode.incomingViews.length then
        toNode.incomingViews.length * sampleBudget upload other + matching else 0) := by
  unfold corpusPayload
  by_cases hfew : toNode.incomingViews.length < 2
  · rw [if_pos hfew]
    trivial
  · rw [if_neg hfew, if_pos (Nat.le_of_not_lt hfew)]
    refine CostsAtMost.tryCatch (n := 0) ?_ fun _ => trivial
    refine (incomingSampleIds_costs _ _).bind fun ids => ?_
    cases ids with
    | none => trivial
    | some ids => exact sharedPayload_costs toSample ids

theorem edgePayload_costs (fromSample toSample : SampleRef) :
    (edgePayload rt fuel client config fromSample toSample).CostsAtMost (VisitOp.cost upload matching other)
      matching := by
  refine (ask_costs rfl).free_bind fun stop => ?_
  refine (costs_of_onlyCalls (onlyCalls_raiseIf _ _)).free_bind fun _ => ?_
  exact onServer_costs (matchSampleVs_costs _ _ _)

theorem matchPayload_costs (toNode : SessionNode) (fromSample toSample : SampleRef) :
    (matchPayload rt fuel client config toNode fromSample toSample).CostsAtMost (VisitOp.cost upload matching other)
      (payloadBudget config toNode upload matching other) := by
  have hedge : ∀ shared : Json, (if shared.isNull then edgePayload rt fuel client config fromSample toSample
      else pure shared : VisitProg Json).CostsAtMost (VisitOp.cost upload matching other) matching := by
    intro shared
    split_ifs
    · exact edgePayload_costs fromSample toSample
    · trivial
  unfold matchPayload
  by_cases hquery : config.queryPerNode = true
  · rw [if_pos hquery]
    refine (corpusPayload_costs toNode toSample).bind_le hedge ?_
    unfold payloadBudget SharesQuery
    simp only [hquery, true_and]
    split_ifs <;> omega
  · have hbudget : payloadBudget config toNode upload matching other = matching :=
      if_neg fun hshares => hquery hshares.1
    rw [if_neg hquery, hbudget]
    exact CostsAtMost.free_bind trivial hedge

theorem lookupTargets_costs (server : String) (fids : List ℤ) :
    (lookupTargets rt client server fids).CostsAtMost (VisitOp.cost upload matching other) other := by
  have hfetch : ∀ missing, (fetchOffsets rt client server missing).CostsAtMost (VisitOp.cost upload matching other)
      other := by
    intro missing
    unfold fetchOffsets
    split_ifs
    · trivial
    · refine (onServer_costs request_costs).bind_free fun entries => ?_
      exact costs_of_onlyCalls (setOffsets_onlyCalls caches_cost _ _)
  refine (costs_of_onlyCalls (missingOffsets_onlyCalls caches_cost server fids)).free_bind fun missing => ?_
  refine (hfetch missing).bind_free fun _ => ?_
  exact costs_of_onlyCalls (knownOffsets_onlyCalls caches_cost server fids _)

/-- Resolving the built-in server keeps the choice of the corpus query. -/
theorem returns_queryPerNode (fromView toView : ViewId) : (visitSetup rt fuel fromView toView config).Returns fun s =>
    s.config.queryPerNode = config.queryPerNode := by
  have hresolve : (resolve (fun corpus => ask (.endpoint corpus) >>= Prog.ofExcept) config : VisitProg _).Returns
      fun config' => config'.queryPerNode = config.queryPerNode := by
    cases hbuiltin : isBuiltin config.server with
    | true =>
      rw [resolve_builtin hbuiltin]
      exact .bind (returns_true _) fun _ _ => rfl
    | false =>
      rw [resolve_remote hbuiltin]
      exact rfl
  refine .bind (returns_true _) fun _ _ => .bind (returns_true _) fun _ _ =>
    .bind (returns_true _) fun _ _ => .bind (returns_true _) fun _ _ =>
    .bind (returns_true _) fun _ _ => .bind hresolve fun config' hconfig' => ?_
  -- The client is not looked into.
  generalize clientFor config' = built
  exact .bind (returns_true _) fun _ _ => .bind (returns_true _) fun _ _ =>
    .bind (returns_true _) fun _ _ => .bind (returns_true _) fun _ _ =>
    .bind (returns_true _) fun _ _ => hconfig'

theorem visitSetup_costs (fromView toView : ViewId) :
    (visitSetup rt fuel fromView toView config).CostsAtMost (VisitOp.cost upload matching other)
      (2 * sampleBudget upload other) := by
  have hresolve : (resolve (fun corpus => ask (.endpoint corpus) >>= Prog.ofExcept) config : VisitProg _).CostsAtMost
      (VisitOp.cost upload matching other) 0 := costs_of_onlyCalls (onlyCalls_resolve (I := VisitI)
    (P := fun o => VisitOp.cost upload matching other o = 0)
      (fun corpus => .bind (ask_onlyCalls rfl) fun _ => onlyCalls_ofExcept _) config)
  rw [two_mul]
  refine (advance_costs _).free_bind fun _ => (exportReport_costs _).free_bind fun fromReport =>
    (advance_costs _).free_bind fun _ => (exportReport_costs _).free_bind fun toReport =>
    (advance_costs _).free_bind fun _ => hresolve.free_bind fun config => ?_
  -- The client is not looked into.
  generalize clientFor config = built
  refine (costs_of_onlyCalls (onlyCalls_ofExcept built)).free_bind fun client => (sample_costs fromReport _).bind
    fun fromSample => (advance_costs _).free_bind fun _ => (sample_costs toReport _).bind_free fun toSample => ?_
  exact (advance_costs _).bind_free fun _ => trivial

theorem visitPayload_costs (fromNode toNode : SessionNode) (fromView : ViewId) (report : SmdaReport)
    (fromSample : SampleRef) (payload : Json) :
    (visitPayload rt fromNode toNode fromView config client report fromSample payload).CostsAtMost
      (VisitOp.cost upload matching other) other := by
  refine (costs_of_onlyCalls (onlyCalls_ofExcept _)).free_bind fun matched =>
    (lookupTargets_costs _ _).bind_free fun targets => ?_
  refine (advance_costs _).free_bind fun _ => (ask_costs rfl).free_bind
    fun listed => (costs_of_onlyCalls (targetEntities_onlyCalls ambient_cost _ _ _ _)).free_bind fun targetIndex => ?_
  exact costs_of_onlyCalls (emitMatches_onlyCalls (fun o ho _ => cost_of_not_isServer ho) _ _ _ _ _ _)

theorem visitEdge_costs (fromNode toNode : SessionNode) :
    (visitEdge rt fuel fromNode toNode config).CostsAtMost (VisitOp.cost upload matching other)
      (visitBudget config toNode upload matching other) := by
  unfold visitEdge
  split_ifs
  · trivial
  split
  · unfold visitBudget
    rw [Nat.add_assoc]
    refine (visitSetup_costs _ _).bind_returns (returns_queryPerNode _ _) fun s hquery => ?_
    have hshares : SharesQuery s.config toNode ↔ SharesQuery config toNode := by
      unfold SharesQuery
      rw [hquery]
    have hbudget : payloadBudget s.config toNode upload matching other =
        payloadBudget config toNode upload matching other := by
      simp only [payloadBudget, hshares]
    rw [← hbudget]
    refine (matchPayload_costs toNode _ _).bind fun payload => ?_
    refine (advance_costs _).free_bind fun _ => ?_
    exact visitPayload_costs _ _ _ _ _ _
  · trivial

end Visit

/-- Whatever a visit meets and wherever it stands, it has asked no more of its server than its budget says. -/
theorem visitsAskLittle {fromNode toNode : SessionNode} {config : ProviderConfig} (upload matching other : ℕ)
    {tr : List (Event VisitI)} {out : Outcome PyError Bool}
    (hexec : Exec (performVisitNodeEdge rt fuel fromNode toNode config) tr out) :
    price (VisitOp.cost upload matching other) tr ≤ visitBudget config toNode upload matching other := by
  have hvisit : (performVisitNodeEdge rt fuel fromNode toNode config).CostsAtMost (VisitOp.cost upload matching other)
      (visitBudget config toNode upload matching other + 0) :=
    (visitEdge_costs fromNode toNode).tryCatch fun e =>
      costs_of_onlyCalls (visitFailed_onlyCalls (P := fun o => VisitOp.cost upload matching other o = 0) rfl e)
  exact hvisit.price_le hexec

/-- The answers to a visit whose first upload is refused. -/
def refusedAnswer : (o : VisitOp) → o.Ans
  | .claimSample _ => .claimed
  | .server _ (.getSampleBySha256 _) => .ok none
  | o => exampleAnswer o

def refusedEnv : (o : VisitI.Op) → VisitI.Ans o := refusedAnswer

def refusedVisit : VisitProg Bool :=
  performVisitNodeEdge ⟨fun _ => none, fun _ => ""⟩ 0 exampleFrom exampleTo { server := remoteServer }

theorem visitsAskLittle_refused : ∃ tr out, Exec refusedVisit tr out ∧
    (∃ client, (⟨.server client (.addReport ⟨emptyReport, "", ""⟩), Except.error (unavailable "")⟩ :
      Event VisitI) ∈ tr) ∧
      price (VisitOp.cost 100 10 1) tr ≤ 215 := by
  have hexec := exec_trace refusedEnv refusedVisit
  have hbudget : visitBudget { server := remoteServer } exampleTo 100 10 1 = 215 := by decide
  have hupload : (refusedVisit.trace refusedEnv)[10]? =
      some ⟨.server ⟨remoteServer, none, none, some 30⟩ (.addReport ⟨emptyReport, "", ""⟩),
        Except.error (unavailable "")⟩ := by
    with_unfolding_all rfl
  refine ⟨_, _, hexec, ⟨_, List.mem_iff_getElem?.2 ⟨10, hupload⟩⟩, ?_⟩
  exact hbudget ▸ visitsAskLittle 100 10 1 hexec

end McritSimilarity

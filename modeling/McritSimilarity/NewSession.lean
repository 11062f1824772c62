import McritSimilarity.AlikeVisits

/-!
# What a new session sees of a server

`SeesServerAsItIs step`: in every run of a process by `step`, an edge visit of a provider that is new
for its server emits what it would emit in a process that has just started.  `FUNCTION_OFFSETS` and
`CORPUS_MATCHES` belong to the process, so a reset leaves their entries in place:
`not_seesServerAsItIs`.  `seesServerAsItIs` is the property for the runs whose resets leave nothing
behind that the new server would not answer.
-/

set_option autoImplicit false

namespace McritSimilarity

open Python Prog

variable {rt : Runtime} {fuel : ℕ}

namespace ServerProcess

/-- The provider was created after the last reset of the server that it visits. -/
def NewFor (s : ServerProcess rt fuel) (v : VisitCall) : Prop :=
  ∀ url, v.url = .ok url → s.isNew v.provider url = true

/-- A process that has just created the provider and done nothing else. -/
def fresh (s : ServerProcess rt fuel) (p : ProviderId) : ServerProcess rt fuel :=
  (start s.servers).create p

/-- A visit is one of a session that began after the last reset of its server, whose matching results
name no more functions than there is room for; and what is cached for a server when it is reset is what
the new server answers. -/
def LeavesNothingStale (s : ServerProcess rt fuel) : Label rt fuel → Prop
  | .create _ => True
  | .visit v => s.NewFor v ∧ ∀ url, v.url = .ok url → (s.servers url).answers.Fits rt fuel
  | .reset url server => OffsetsOf s.functionOffsets url server ∧ CorpusOf s.corpusMatches url server

end ServerProcess

open ServerProcess

/-- A new session sees the server as it is now. -/
def SeesServerAsItIs (rt : Runtime) (fuel : ℕ)
    (step : ServerProcess rt fuel → Label rt fuel → ServerProcess rt fuel → Prop) : Prop :=
  ∀ servers tr s v s', Steps step (.start servers) tr s → step s (.visit v) s' → s.NewFor v →
    (runVisit s v).2.emitted = (runVisit (s.fresh v.provider) v).2.emitted

theorem coherent_create {s : ServerProcess rt fuel} (h : Coherent s) (p : ProviderId) :
    Coherent (s.create p) where
  room := h.room
  offsets := h.offsets
  corpus := h.corpus
  samples q url hnew := by
    by_cases hq : q = p
    · subst hq
      intro text sha256 ref href
      simp only [ServerProcess.create, Function.update_self] at href
      cases href
    · simp only [ServerProcess.create, Function.update_of_ne hq] at hnew ⊢
      exact h.samples q url hnew

theorem coherent_reset {s : ServerProcess rt fuel} (h : Coherent s) {url : String}
    {server : McritServer rt fuel} (hoffsets : OffsetsOf s.functionOffsets url server)
    (hcorpus : CorpusOf s.corpusMatches url server) : Coherent (s.reset url server) where
  room := h.room
  offsets url' := by
    by_cases hurl : url' = url
    · subst hurl
      simp only [ServerProcess.reset, Function.update_self]
      exact hoffsets
    · simp only [ServerProcess.reset, Function.update_of_ne hurl]
      exact h.offsets url'
  corpus url' := by
    by_cases hurl : url' = url
    · subst hurl
      simp only [ServerProcess.reset, Function.update_self]
      exact hcorpus
    · simp only [ServerProcess.reset, Function.update_of_ne hurl]
      exact h.corpus url'
  samples p url' hnew := by
    by_cases hurl : url' = url
    · subst hurl
      simp only [ServerProcess.reset, Function.update_self] at hnew
      cases hnew
    · simp only [ServerProcess.reset, Function.update_of_ne hurl] at hnew ⊢
      exact h.samples p url' hnew

/-- Two processes with the same servers, both coherent. -/
theorem alike_of_coherent {s s' : ServerProcess rt fuel} {v : VisitCall} (hs : Coherent s)
    (hs' : Coherent s') (hservers : s'.servers = s.servers) (hnew : s.NewFor v) (hnew' : s'.NewFor v)
    (hfits : ∀ url, v.url = .ok url → (s.servers url).answers.Fits rt fuel) :
    Alike v ∅ (⟨s, []⟩ : VisitState rt fuel) ⟨s', []⟩ where
  coherent := hs
  coherent' := hs'
  isNew := hnew
  isNew' := hnew'
  answers url := by rw [hservers]
  samples := by
    unfold VisitState.samplesOn
    rw [hservers]
  emitted := rfl
  fits := hfits
  known url hurl x hx := hx.elim

/-- A visit of a new session leaves a coherent process. -/
theorem coherent_visit {s : ServerProcess rt fuel} {v : VisitCall} (hs : Coherent s)
    (hnew : s.NewFor v) (hfits : ∀ url, v.url = .ok url → (s.servers url).answers.Fits rt fuel) :
    Coherent (runVisit s v).2.toServerProcess :=
  ((agree_visit _ _ (alike_of_coherent hs hs rfl hnew hnew hfits)).states fun _ _ h => h).coherent

theorem coherent_step {s s' : ServerProcess rt fuel} {l : Label rt fuel} (hs : Coherent s)
    (hstep : restrict Step LeavesNothingStale s l s') : Coherent s' := by
  obtain ⟨hcond, rfl⟩ := hstep
  cases l with
  | create p => exact coherent_create hs p
  | visit v => exact coherent_visit hs hcond.1 hcond.2
  | reset url server => exact coherent_reset hs hcond.1 hcond.2

/-- Where no reset leaves a stale entry behind, a new session sees the server as it is now. -/
theorem seesServerAsItIs (rt : Runtime) (fuel : ℕ) :
    SeesServerAsItIs rt fuel (restrict Step LeavesNothingStale) := by
  intro servers tr s v s' hrun hvisit hnew
  have hs : Coherent s :=
    hrun.invariant (fun _ _ _ h hstep => coherent_step h hstep) (coherent_start servers)
  have hfresh : Coherent (s.fresh v.provider) := coherent_create (coherent_start s.servers) v.provider
  have hnew' : (s.fresh v.provider).NewFor v := fun url _ => by
    simp only [ServerProcess.fresh, ServerProcess.create, Function.update_self]
  have halike := alike_of_coherent hs hfresh rfl hnew hnew' hvisit.1.2
  exact ((agree_visit _ _ halike).states fun _ _ h => h).emitted.symm

/-! ## A server that is reset -/

/-- The entry of function 5 of a server. -/
def functionEntry (offset : ℤ) : Json := .dict [("offset", .int offset)]

/-- One source function that matches function 5 of sample 9. -/
def resetPayload (score : ℚ := 90) : Json :=
  .dict [("info", .dict []), ("matches", .dict [("functions", .list [.dict [("offset", .int 0x1000),
    ("fid", .int 1), ("matches", .list [.list [.int 0, .int 9, .int 5, .float (.finite score),
      .int 1]])]])])]

/-- A server whose matching results are there at once, with function 5 at an offset. -/
def resetAnswers (offset : ℤ) (score : ℚ := 90) : ServerAnswers where
  functions _ fid := if fid = 5 then some (functionEntry offset) else none
  functionsByIds _ fids := if 5 ∈ fids then OrderedMap.empty.put 5 (functionEntry offset) else .empty
  added _ _ := .error (unavailable "")
  answer _ _
    | .getJobs _ _ => .ok []
    | .requestMatchesForSampleVs _ _ _ => .ok (resetPayload score)
    | .requestMatchesForSample _ _ _ => .ok (resetPayload score)
    | .getSampleBySha256 _ => .error (unavailable "")
    | .addReport _ => .error (unavailable "")
    | .getJobData _ => .error (unavailable "")
    | .getResult _ => .error (unavailable "")
    | .getResultForJob _ => .error (unavailable "")
    | .getFunctionsByIds _ => .error (unavailable "")

theorem steady_resetAnswers (rt : Runtime) (fuel : ℕ) (offset : ℤ) (score : ℚ) :
    (resetAnswers offset score).Steady rt fuel where
  functions_grow _ _ _ _ _ h := h
  find?_functionsByIds samples fids fid := by
    simp only [resetAnswers]
    by_cases hfid : fid = 5
    · subst hfid
      by_cases hmem : (5 : ℤ) ∈ fids
      · simp [hmem, OrderedMap.find?_put]
      · simp [hmem]
    · by_cases hmem : (5 : ℤ) ∈ fids
      · simp [hmem, hfid, OrderedMap.find?_put]
      · simp [hmem, hfid]
  indexed c sha256 sampleId opts _ := rfl
  uploaded samples asked asked' report labels opts _ := rfl
  vs samples asked asked' own other params := rfl
  corpus c c' own params sha256 sampleId _ _ := .returned ⟨rfl, fun _ _ => rfl⟩

def resetServer (rt : Runtime) (fuel : ℕ) (offset : ℤ) (score : ℚ := 90) : McritServer rt fuel where
  answers := resetAnswers offset score
  steady := steady_resetAnswers rt fuel offset score
  content := ⟨fun sha256 => if sha256 = "aa" then some (.dict [("sample_id", .int 9)]) else none, []⟩

/-- The target view has functions at both offsets. -/
def resetVisit (p : ProviderId) : VisitCall where
  provider := p
  fromNode := ⟨7, some 0, [], []⟩
  toNode := ⟨3, some 1, [10], [some 0]⟩
  incoming := List.mem_cons_self ..
  config := { server := remoteServer }
  surroundings := {
    exportReport := fun _ => .ok emptyReport
    endpoint := fun _ => .error .stopped
    entities := fun nodeId => if nodeId = 3 then [(10, some ⟨true, 0x1000, "f"⟩)]
      else [(20, some ⟨true, 0x2000, "g"⟩), (21, some ⟨true, 0x3000, "h"⟩)]
    functionAt := fun _ _ => true
    createEntity := fun _ _ _ => 42
    addResult := fun _ _ _ _ => 1 }

abbrev resetRuntime : Runtime := ⟨fun _ => none, fun _ => ""⟩

/-! ## A reset that leaves the functions where they are -/

theorem fitsOffsets_resetPayload (score : ℚ) : FitsOffsets (resetPayload score) := by
  intro filter matched hmatched
  let row : Json := .list [.int 0, .int 9, .int 5, .float (.finite score), .int 1]
  have hparse : parseVsResult (resetPayload score) filter =
      .ok (((([row].filterMap (acceptRow filter ⟨0x1000, 1, .finite 0⟩) ++ []).foldl addToGroup .empty).values).flatMap
        (selectGroup (max 1 filter.maxResults))) := rfl
  have hlength : matched.length ≤ 1 := by
    rw [hparse] at hmatched
    obtain rfl := Except.ok.inj hmatched
    cases hrow : acceptRow filter ⟨0x1000, 1, .finite 0⟩ row with
    | none =>
      rw [List.filterMap_cons_none hrow]
      exact Nat.zero_le 1
    | some m =>
      rw [List.filterMap_cons_some hrow]
      have hgroup : (selectGroup (max 1 filter.maxResults) [m]).length ≤ 1 := by
        rw [selectGroup, List.length_map, List.length_take]
        exact min_le_right _ _
      have hvalues : (([m] ++ []).foldl addToGroup .empty).values = [[m]] := rfl
      rw [List.filterMap_nil, hvalues, List.flatMap_singleton]
      exact hgroup
  calc (uniqueTargetFunctionIds matched).length
      = (matched.map FunctionMatch.targetFunctionId).reverse.dedup.length := List.length_reverse
    _ ≤ matched.length := (List.dedup_sublist _).length_le.trans (by simp)
    _ ≤ functionOffsetItems := hlength.trans (by decide)

theorem fits_resetAnswers (rt : Runtime) (fuel : ℕ) (offset : ℤ) (score : ℚ) :
    (resetAnswers offset score).Fits rt fuel := by
  refine ⟨fun c own other params payload h => ?_, fun c own params payload h => ?_⟩
  · obtain rfl : resetPayload score = payload := Outcome.returned.inj h
    exact fitsOffsets_resetPayload score
  · obtain rfl : resetPayload score = payload := Outcome.returned.inj h
    exact fitsOffsets_resetPayload score

/-- A session of the first server. -/
def visitedProcess : ServerProcess resetRuntime 0 :=
  ((ServerProcess.start fun _ => resetServer resetRuntime 0 0x2000).next (.create 0)).next (.visit (resetVisit 0))

theorem steps_visitedProcess : Steps (restrict Step LeavesNothingStale)
    (ServerProcess.start fun _ => resetServer resetRuntime 0 0x2000)
    [.create 0, .visit (resetVisit 0)] visitedProcess := by
  refine .cons ⟨trivial, rfl⟩ (.single ⟨⟨fun _ _ => rfl, ?_⟩, rfl⟩)
  intro url _
  exact fits_resetAnswers _ _ _ _

/-- The functions of the second server are where they were, and their scores are others. -/
theorem reset_visitedProcess : LeavesNothingStale visitedProcess
    (.reset remoteServer (resetServer resetRuntime 0 0x2000 80)) := by
  have hs : Coherent visitedProcess :=
    steps_visitedProcess.invariant (fun _ _ _ h hstep => coherent_step h hstep) (coherent_start _)
  have hanswers : (visitedProcess.servers remoteServer).answers = resetAnswers 0x2000 := by
    with_unfolding_all rfl
  have hcorpus : visitedProcess.corpusMatches.items.keys = [] := by with_unfolding_all rfl
  refine ⟨fun text fid found hfound hurl => ?_, fun key payload hpayload _ => ?_⟩
  · obtain ⟨entry, hentry, htarget⟩ := hs.offsets remoteServer text fid found hfound hurl
    rw [hanswers] at hentry
    exact ⟨entry, hentry, htarget⟩
  · have hkey : key ∈ visitedProcess.corpusMatches.items.keys := OrderedMap.mem_keys_iff.2 ⟨payload, hpayload⟩
    rw [hcorpus] at hkey
    cases hkey

/-- The second session, after the reset. -/
def rescoredProcess : ServerProcess resetRuntime 0 :=
  (visitedProcess.next (.reset remoteServer (resetServer resetRuntime 0 0x2000 80))).next (.create 1)

/-- The second session finds the offset that the first one cached, and emits the score of the second server. -/
theorem seesServerAsItIs_rescored :
    rescoredProcess.functionOffsets.items.keys = [(remoteServer, 5)] ∧
    (runVisit rescoredProcess (resetVisit 1)).2.emitted =
      (runVisit (rescoredProcess.fresh 1) (resetVisit 1)).2.emitted ∧
    (runVisit rescoredProcess (resetVisit 1)).2.emitted = [.labels [], .result ⟨3, 10⟩ ⟨7, 20⟩ 204 0] := by
  have hrun : Steps (restrict Step LeavesNothingStale)
      (ServerProcess.start fun _ => resetServer resetRuntime 0 0x2000)
      ([.create 0, .visit (resetVisit 0)] ++
        [.reset remoteServer (resetServer resetRuntime 0 0x2000 80), .create 1]) rescoredProcess :=
    steps_visitedProcess.append (.cons ⟨reset_visitedProcess, rfl⟩ (.single ⟨trivial, rfl⟩))
  have hnew : rescoredProcess.NewFor (resetVisit 1) := fun _ _ => rfl
  have hanswers : (rescoredProcess.servers remoteServer).answers = resetAnswers 0x2000 80 := rfl
  have hvisit : restrict Step LeavesNothingStale rescoredProcess (.visit (resetVisit 1))
      (rescoredProcess.next (.visit (resetVisit 1))) := by
    refine ⟨⟨hnew, fun url hurl => ?_⟩, rfl⟩
    have hremote : (resetVisit 1).url = .ok remoteServer :=
      (if_neg (by rw [isBuiltin_remoteServer rfl]; decide)).trans clientServer_remoteServer
    obtain rfl : remoteServer = url := Except.ok.inj (hremote.symm.trans hurl)
    rw [hanswers]
    exact fits_resetAnswers _ _ _ _
  refine ⟨by decide +kernel, seesServerAsItIs resetRuntime 0 _ _ _ _ _ hrun hvisit hnew, by decide +kernel⟩

/-! ## A reset that moves a function -/

/-- A session, a reset that moves function 5, and a new session. -/
def resetProcess : ServerProcess resetRuntime 0 :=
  ((((ServerProcess.start fun _ => resetServer resetRuntime 0 0x2000).next (.create 0)).next
    (.visit (resetVisit 0))).next (.reset remoteServer (resetServer resetRuntime 0 0x3000))).next (.create 1)

theorem emitted_resetProcess : (runVisit resetProcess (resetVisit 1)).2.emitted ≠
    (runVisit (resetProcess.fresh 1) (resetVisit 1)).2.emitted := by
  decide +kernel

theorem not_seesServerAsItIs : ¬ SeesServerAsItIs resetRuntime 0 Step := by
  intro h
  refine emitted_resetProcess (h (fun _ => resetServer resetRuntime 0 0x2000)
    [.create 0, .visit (resetVisit 0), .reset remoteServer (resetServer resetRuntime 0 0x3000),
      .create 1] resetProcess (resetVisit 1) _ ?_ rfl fun url _ => rfl)
  exact .cons rfl (.cons rfl (.cons rfl (.cons rfl (.refl _))))

end McritSimilarity

import Mathlib.Tactic.Linarith
import McritSimilarity.AwaitedCalls
import McritSimilarity.VisitStops

/-!
# The progress of a visit

A visit reports its progress at fixed points, and within three spans as the server reports the progress of a job.
`progressClimbs`: no report falls behind the span of an earlier one, whatever the server reports, and `1` is the last
thing that a visit does, and exactly the visits that match and return `True` do it.
-/

set_option autoImplicit false

namespace McritSimilarity

open Python Prog

/-! ## What server programs report -/

/-- No progress is reported unless it was asked for. -/
def ReportsIf (reports : Bool) : SampleOp → Prop
  | .onProgress _ => reports = true
  | _ => True

section Reports

variable {rt : Runtime} {fuel : ℕ} (opts : AwaitOptions)

theorem waitPermits_reportsIf : WaitPermits opts (ReportsIf opts.reports) :=
  ⟨fun _ => trivial, fun _ => trivial, fun _ => trivial, trivial, fun hreports _ => hreports, fun _ => trivial⟩

theorem existingSample_reportsIf (sampleInfo : Json) (sha256 : String) :
    (existingSample rt fuel sampleInfo sha256 opts).OnlyCalls (ReportsIf opts.reports) :=
  .bind (onlyCalls_ofExcept _) fun _ => .bind (.bind (request_onlyCalls trivial) fun _ => trivial) fun jobId =>
    .bind ((waitPermits_reportsIf opts).awaitIndexing_calls jobId) fun _ => trivial

theorem ensureSample_reportsIf (server : String) (report : SmdaReport) (labels : SampleLabels) :
    (ensureSample rt fuel server report labels opts).OnlyCalls (ReportsIf opts.reports) := by
  refine .bind (onlyCalls_raiseIf _ _) fun _ => .bind (request_onlyCalls trivial) fun existing => ?_
  cases existing with
  | some existing => exact existingSample_reportsIf opts existing _
  | none =>
    refine .bind (onlyCalls_raiseIf _ _) fun _ => .bind (request_onlyCalls trivial) fun added =>
      .bind (onlyCalls_ofExcept _) fun info => ?_
    split_ifs
    · exact existingSample_reportsIf opts info _
    · exact .bind (onlyCalls_ofExcept _) fun _ => .bind ((waitPermits_reportsIf opts).awaitIndexing_calls _) fun _ =>
        trivial

end Reports

/-! ## The protocol of progress -/

/-- Where the span of a report begins; a report outside of the spans stands for itself. -/
def spanStart (progress : ℚ) : ℚ :=
  if progress ≤ 32 / 100 then progress
  else if progress ≤ 42 / 100 then 32 / 100
  else if progress ≤ 52 / 100 then 42 / 100
  else if progress < 55 / 100 then progress
  else if progress ≤ 88 / 100 then 55 / 100
  else progress

theorem spanStart_le (progress : ℚ) : spanStart progress ≤ progress := by
  unfold spanStart
  split_ifs <;> linarith

theorem spanStart_one : spanStart 1 = 1 := by norm_num [spanStart]

/-- What may be reported once `least` has been reached. -/
def MayReport (least : ℚ) : PyFloat → Prop
  | .finite progress => least ≤ progress ∧ progress ≤ 1
  | _ => False

def allowsProgress (least : ℚ) : VisitOp → Prop
  | .setProgress progress => least < 1 ∧ MayReport least progress
  | _ => least < 1

def nextProgress (least : ℚ) : VisitOp → ℚ
  | .setProgress (.finite progress) => max least (spanStart progress)
  | _ => least

/-- Nothing is called after `1` was reported. -/
def progressProtocol : Protocol VisitI where
  State := ℚ
  allowed := allowsProgress
  next least o _ := nextProgress least o

/-- The program has not reported `1` and, when it returns, nothing beyond `hi`. -/
def ClimbsTo {α : Type} (hi : ℚ) (out : Outcome PyError α) (progress : ℚ) : Prop :=
  progress < 1 ∧ ∀ a, out = .returned a → progress ≤ hi

/-- From any progress up to `lo` the program goes on to `hi`. -/
def Climbs {α : Type} (lo hi : ℚ) (p : VisitProg α) : Prop :=
  ∀ least : ℚ, least ≤ lo → p.Follows progressProtocol (ClimbsTo hi) least

theorem Climbs.bind {α β : Type} {lo mid hi : ℚ} {p : VisitProg α} {f : α → VisitProg β} (hp : Climbs lo mid p)
    (hf : ∀ a, Climbs mid hi (f a)) : Climbs lo hi (p >>= f) := by
  refine fun least hleast => Follows.bind ((hp least hleast).mono fun out (t : ℚ) ht => ?_)
  cases out with
  | returned a => exact hf a t (ht.2 a rfl)
  | raised e => exact ⟨ht.1, nofun⟩
  | pending => trivial

/-- Reports nothing. -/
def VisitOp.IsSilent : VisitOp → Prop
  | .setProgress _ => False
  | _ => True

/-- Reports only within a span. -/
def ReportsIn (lo hi : ℚ) : VisitOp → Prop
  | .setProgress (.finite progress) => lo ≤ progress ∧ progress ≤ hi
  | .setProgress _ => False
  | _ => True

theorem climbs_of_reportsIn {α : Type} {lo hi : ℚ} {p : VisitProg α} (hp : p.OnlyCalls (ReportsIn lo hi))
    (hlo : lo < 1) (hhi : hi ≤ 1) (hspan : ∀ progress, lo ≤ progress → progress ≤ hi → spanStart progress ≤ lo) :
    Climbs lo lo p := by
  intro least hleast
  induction p generalizing least with
  | ret a => exact ⟨hleast.trans_lt hlo, fun _ _ => hleast⟩
  | raise e => exact ⟨hleast.trans_lt hlo, nofun⟩
  | spin => trivial
  | call o k ih =>
    have hlt : least < 1 := hleast.trans_lt hlo
    have hother : allowsProgress least o ∧ nextProgress least o ≤ lo := by
      obtain ⟨ho, -⟩ := hp
      cases o with
      | setProgress progress =>
        cases progress with
        | finite progress =>
          obtain ⟨hge, hle⟩ := ho
          exact ⟨⟨hlt, hleast.trans hge, hle.trans hhi⟩, max_le hleast (hspan _ hge hle)⟩
        | _ => exact ho.elim
      | _ => exact ⟨hlt, hleast⟩
    exact ⟨hother.1, fun a => ih a (hp.2 a) _ hother.2⟩

theorem climbs_of_isSilent {α : Type} {lo : ℚ} {p : VisitProg α} (hp : p.OnlyCalls VisitOp.IsSilent) (hlo : lo < 1) :
    Climbs lo lo p := by
  intro least hleast
  refine (OnlyCalls.follows (P := progressProtocol) (s := least) hp fun o ho => ?_).mono fun _ t ht => ?_
  · cases o with
    | setProgress => exact ho.elim
    | _ => exact ⟨hleast.trans_lt hlo, fun _ => rfl⟩
  · subst ht
    exact ⟨hleast.trans_lt hlo, fun _ _ => hleast⟩

theorem climbs_advance {lo progress : ℚ} (hlo : lo ≤ progress) (hlt : progress < 1) :
    Climbs lo progress (advance progress) := by
  intro least hleast
  have hle : least ≤ progress := hleast.trans hlo
  have hnext : max least (spanStart progress) ≤ progress := max_le hle (spanStart_le progress)
  refine ⟨⟨hle.trans_lt hlt, hle, hlt.le⟩, fun _ => ⟨hnext.trans_lt hlt, fun stop => ?_⟩⟩
  cases stop with
  | true => exact ⟨hnext.trans_lt hlt, nofun⟩
  | false => exact ⟨hnext.trans_lt hlt, fun _ _ => hnext⟩

/-! ## A visit -/

section Visit

variable {rt : Runtime} {fuel : ℕ} {config : ProviderConfig} {client : McritClient} {fromNode toNode : SessionNode}

theorem VisitOp.IsSilent.reportsIn {o : VisitOp} (ho : o.IsSilent) (lo hi : ℚ) : ReportsIn lo hi o := by
  cases o with
  | setProgress => exact ho.elim
  | _ => trivial

theorem reportsIn_scaleProgress {lo hi : ℚ} (hle : lo ≤ hi) (fraction : PyFloat) :
    ReportsIn lo hi (.setProgress (scaleProgress lo hi fraction)) := by
  cases fraction with
  | finite fraction =>
    have hwidth : 0 ≤ hi - lo := sub_nonneg.2 hle
    have hnonneg : 0 ≤ max 0 (min 1 fraction) := le_max_left _ _
    have hone : max 0 (min 1 fraction) ≤ 1 := max_le zero_le_one (min_le_left _ _)
    have hshift := mul_le_mul_of_nonneg_left hone hwidth
    have hpos := mul_nonneg hwidth hnonneg
    exact ⟨by linarith, by linarith⟩
  | posInf => exact ⟨hle, le_rfl⟩
  | negInf => exact ⟨le_rfl, hle⟩
  | nan => exact ⟨hle, le_rfl⟩

theorem onServer_reportsIn {α : Type} {lo hi : ℚ} (hle : lo ≤ hi) {p : SampleProg α} (reports : Bool)
    (hp : p.OnlyCalls (ReportsIf reports)) : (onServer client lo hi p).OnlyCalls (ReportsIn lo hi) :=
  hp.lift fun o _ => by
    cases o with
    | onProgress fraction => exact reportsIn_scaleProgress hle fraction
    | _ => trivial

theorem onServer_isSilent {α : Type} {lo hi : ℚ} {p : SampleProg α} (hp : p.OnlyCalls (ReportsIf false)) :
    (onServer client lo hi p).OnlyCalls VisitOp.IsSilent :=
  hp.lift fun o ho => by
    cases o with
    | onProgress fraction => exact absurd ho Bool.false_ne_true
    | _ => trivial

theorem sample_reportsIn {lo hi : ℚ} (hle : lo ≤ hi) (report : SmdaReport) :
    (sample rt fuel client config report (some (lo, hi))).OnlyCalls (ReportsIn lo hi) :=
  getOrSet_onlyCalls (ask_onlyCalls trivial) (fun _ => ask_onlyCalls trivial) (ask_onlyCalls trivial)
    (onServer_reportsIn hle true (ensureSample_reportsIf { reports := true } _ _ _))

theorem sample_isSilent (report : SmdaReport) : (sample rt fuel client config report none).OnlyCalls VisitOp.IsSilent :=
  getOrSet_onlyCalls (ask_onlyCalls trivial) (fun _ => ask_onlyCalls trivial) (ask_onlyCalls trivial)
    (onServer_isSilent (ensureSample_reportsIf { reports := false } _ _ _))

theorem exportReport_isSilent (view : ViewId) : (exportReport view).OnlyCalls VisitOp.IsSilent :=
  .bind (ask_onlyCalls trivial) fun _ => onlyCalls_ofExcept _

theorem incomingSampleIds_isSilent (views : List (Option ViewId)) (ids : Finset ℤ) :
    (incomingSampleIds rt fuel client config views ids).OnlyCalls VisitOp.IsSilent := by
  induction views generalizing ids with
  | nil => trivial
  | cons view views ih =>
    cases view with
    | none => trivial
    | some view => exact .bind (exportReport_isSilent view) fun _ => .bind (sample_isSilent _) fun _ => ih _

/-- The payload reports within its span, also where the corpus query fails and the edge is asked for. -/
theorem matchPayload_reportsIn (fromSample toSample : SampleRef) :
    (matchPayload rt fuel client config toNode fromSample toSample).OnlyCalls
      (ReportsIn (55 / 100) (88 / 100)) := by
  have hspan : (55 / 100 : ℚ) ≤ 88 / 100 := by norm_num
  have hresolve : ∀ payload, (resolveMatches rt fuel payload {}).OnlyCalls (ReportsIf true) :=
    (waitPermits_reportsIf {}).resolveMatches_calls
  have hedge : (edgePayload rt fuel client config fromSample toSample).OnlyCalls (ReportsIn (55 / 100) (88 / 100)) :=
    .bind (ask_onlyCalls trivial) fun _ => .bind (onlyCalls_raiseIf _ _) fun _ =>
      onServer_reportsIn hspan true (.bind (request_onlyCalls trivial) fun _ => hresolve _)
  have hshared : ∀ ids, (sharedPayload rt fuel client config toSample ids).OnlyCalls
      (ReportsIn (55 / 100) (88 / 100)) := fun ids => by
    refine getOrSet_onlyCalls (ask_onlyCalls trivial) (fun payload => ?_) (ask_onlyCalls trivial)
      (onServer_reportsIn hspan true (.bind (request_onlyCalls trivial) fun _ => hresolve _))
    split_ifs
    · exact ask_onlyCalls trivial
    · trivial
  have hcorpus : (corpusPayload rt fuel client config toNode toSample).OnlyCalls
      (ReportsIn (55 / 100) (88 / 100)) := by
    unfold corpusPayload
    split_ifs
    · trivial
    · refine .tryCatch (.bind ((incomingSampleIds_isSilent _ _).mono fun o ho => ho.reportsIn _ _) fun ids => ?_)
        fun _ => trivial
      cases ids with
      | none => trivial
      | some ids => exact hshared ids
  refine .bind ?_ fun shared => ?_
  · split_ifs
    · exact hcorpus
    · trivial
  · split_ifs
    · exact hedge
    · trivial

theorem lookupTargets_isSilent (server : String) (fids : List ℤ) :
    (lookupTargets rt client server fids).OnlyCalls VisitOp.IsSilent := by
  have hcaches : Caches VisitOp.IsSilent := fun o ho => by
    cases o with
    | setProgress => exact ho.elim
    | _ => trivial
  refine .bind (missingOffsets_onlyCalls hcaches server fids) fun missing => .bind ?_ fun _ =>
    knownOffsets_onlyCalls hcaches server fids _
  unfold fetchOffsets
  split_ifs
  · trivial
  · exact .bind (onServer_isSilent (request_onlyCalls trivial)) fun _ => setOffsets_onlyCalls hcaches _ _

theorem targetEntities_isSilent (view : ViewId) (report : SmdaReport) (matched : List FunctionMatch) :
    (targetEntities fromNode view report matched).OnlyCalls VisitOp.IsSilent :=
  .bind (ask_onlyCalls trivial) fun _ => .tryFinally
    (.bind (ask_onlyCalls trivial) fun _ =>
      addMatchOnlyEntities_onlyCalls (fun _ _ => trivial) (fun _ _ _ => trivial) _ _ _ _ _)
    (ask_onlyCalls trivial)

theorem emitPairs_isSilent (pairs : List MatchPair) : (emitPairs fromNode toNode pairs).OnlyCalls VisitOp.IsSilent := by
  induction pairs with
  | nil => trivial
  | cons pair pairs ih =>
    exact .bind (ask_onlyCalls trivial) fun _ => .bind (onlyCalls_raiseIf _ _) fun _ =>
      .bind (ask_onlyCalls trivial) fun _ => .bind ih fun _ => trivial

/-- Up to its samples a visit reports within the first half. -/
theorem climbs_visitSetup (fromView toView : ViewId) :
    Climbs 0 (55 / 100) (visitSetup rt fuel fromView toView config) := by
  have hexport : ∀ (view : ViewId) (lo : ℚ), lo < 1 → Climbs lo lo (exportReport view) := fun view _ hlo =>
    climbs_of_isSilent (exportReport_isSilent view) hlo
  have hresolve : (resolve (fun corpus => ask (.endpoint corpus) >>= Prog.ofExcept) config).OnlyCalls
      VisitOp.IsSilent := onlyCalls_resolve (I := VisitI)
    (fun corpus => .bind (ask_onlyCalls (o := .endpoint corpus) trivial) fun _ => onlyCalls_ofExcept _) config
  refine (climbs_advance (by norm_num) (by norm_num)).bind fun _ => (hexport _ _ (by norm_num)).bind fun fromReport =>
    (climbs_advance (by norm_num) (by norm_num)).bind fun _ => (hexport _ _ (by norm_num)).bind fun toReport =>
    (climbs_advance (by norm_num) (by norm_num)).bind fun _ =>
    (climbs_of_isSilent hresolve (by norm_num)).bind fun config => ?_
  -- The client is not looked into.
  generalize clientFor config = built
  exact Climbs.bind (climbs_of_isSilent (onlyCalls_ofExcept _) (by norm_num)) fun client =>
    (climbs_of_reportsIn (sample_reportsIn (by norm_num) fromReport) (by norm_num) (by norm_num) fun progress => by
      unfold spanStart
      split_ifs <;> intros <;> linarith).bind fun fromSample =>
    (climbs_advance (by norm_num) (by norm_num)).bind fun _ =>
    (climbs_of_reportsIn (sample_reportsIn (by norm_num) toReport) (by norm_num) (by norm_num) fun progress => by
      unfold spanStart
      split_ifs <;> intros <;> linarith).bind fun toSample =>
    (climbs_advance (by norm_num) (by norm_num)).bind fun _ least hleast =>
      ⟨hleast.trans_lt (by norm_num), fun _ _ => hleast⟩

/-- A visit that has matched reports `1`, and only such a visit. -/
def Completes (out : Outcome PyError Bool) (progress : ℚ) : Prop :=
  out = .returned true ∧ progress = 1 ∨ out ≠ .returned true ∧ progress < 1

theorem Climbs.completes {α : Type} {lo mid : ℚ} {p : VisitProg α} {f : α → VisitProg Bool} (hp : Climbs lo mid p)
    (hf : ∀ a (least : ℚ), least ≤ mid → (f a).Follows progressProtocol Completes least) (least : ℚ)
    (hleast : least ≤ lo) : (p >>= f).Follows progressProtocol Completes least := by
  refine Follows.bind ((hp least hleast).mono fun out (t : ℚ) ht => ?_)
  cases out with
  | returned a => exact hf a t (ht.2 a rfl)
  | raised e => exact Or.inr ⟨nofun, ht.1⟩
  | pending => trivial

theorem emitMatches_completes (matched : List FunctionMatch) (targets : Targets)
    (sourceIndex targetIndex : EntityIndex) (least : ℚ) (hleast : least ≤ 9 / 10) :
    (emitMatches fromNode toNode matched targets sourceIndex targetIndex).Follows progressProtocol Completes least := by
  refine Climbs.completes (climbs_of_isSilent (ask_onlyCalls (o := .updateLabels _) trivial) (by norm_num))
    (fun _ least hleast => ?_) least hleast
  refine Climbs.completes (climbs_of_isSilent (emitPairs_isSilent _) (by norm_num)) (fun emitted least hleast => ?_)
    least hleast
  have hlt : least < 1 := hleast.trans_lt (by norm_num)
  split_ifs
  · exact Or.inr ⟨nofun, hlt⟩
  · refine ⟨⟨hlt, hlt.le, le_rfl⟩, fun _ => Or.inl ⟨rfl, ?_⟩⟩
    change max least (spanStart 1) = 1
    rw [spanStart_one, max_eq_right hlt.le]

theorem visitPayload_completes (fromView : ViewId) (fromReport : SmdaReport) (fromSample : SampleRef) (payload : Json)
    (least : ℚ) (hleast : least ≤ 88 / 100) :
    (visitPayload rt fromNode toNode fromView config client fromReport fromSample payload).Follows progressProtocol
      Completes least := by
  refine Climbs.completes (climbs_of_isSilent (onlyCalls_ofExcept _) (by norm_num)) (fun _ least hleast => ?_) least
    hleast
  refine Climbs.completes (climbs_of_isSilent (lookupTargets_isSilent _ _) (by norm_num)) (fun _ least hleast => ?_)
    least hleast
  refine Climbs.completes (climbs_advance (by norm_num) (by norm_num)) (fun _ least hleast => ?_) least hleast
  refine Climbs.completes (climbs_of_isSilent (ask_onlyCalls (o := .entities _) trivial) (by norm_num))
    (fun _ least hleast => ?_) least hleast
  exact Climbs.completes (climbs_of_isSilent (targetEntities_isSilent _ _ _) (by norm_num))
    (fun _ least hleast => emitMatches_completes _ _ _ _ least hleast) least hleast

theorem visitViews_completes (fromView toView : ViewId) :
    (visitViews rt fuel fromNode toNode fromView toView config).Follows progressProtocol Completes (0 : ℚ) := by
  refine Climbs.completes (climbs_visitSetup fromView toView) (fun s least hleast => ?_) 0 le_rfl
  refine Climbs.completes (climbs_of_reportsIn (matchPayload_reportsIn _ _) (by norm_num) (by norm_num)
    fun progress => ?_) (fun payload least hleast => ?_) least hleast
  · unfold spanStart
    split_ifs <;> intros <;> linarith
  · exact Climbs.completes (climbs_advance (by norm_num) (by norm_num))
      (fun _ least hleast => visitPayload_completes _ _ _ _ least hleast) least hleast

/-- A visit that schedules something completes the progress exactly if it returns `True`. -/
theorem performVisitNodeEdge_completes (hscheduled : toNode.scheduledEntities ≠ []) :
    (performVisitNodeEdge rt fuel fromNode toNode config).Follows progressProtocol Completes (0 : ℚ) := by
  have hedge : (visitEdge rt fuel fromNode toNode config).Follows progressProtocol Completes (0 : ℚ) := by
    unfold visitEdge
    rw [if_neg hscheduled]
    split
    · exact visitViews_completes _ _
    · exact Or.inr ⟨nofun, zero_lt_one⟩
  refine Follows.tryCatch (hedge.mono fun out (t : ℚ) ht => ?_)
  cases out with
  | returned result => exact ht
  | raised e =>
    have hreached : t < 1 := (ht.resolve_left fun h => nomatch h.1).2
    show (visitFailed e).Follows progressProtocol Completes t
    rcases visitFailed_cases e with heq | heq <;> rw [heq]
    · exact ⟨hreached, fun _ => Or.inr ⟨nofun, hreached⟩⟩
    · exact Or.inr ⟨nofun, hreached⟩
  | pending => trivial

end Visit

/-! ## Runs of a visit -/

/-- The progress that an event reports. -/
def reported : Event VisitI → Option PyFloat
  | ⟨.setProgress progress, _⟩ => some progress
  | _ => none

/-- The progress that has been reached after a trace. -/
def reached (tr : List (Event VisitI)) : ℚ := progressProtocol.after (0 : ℚ) tr

section Reached

variable {e : Event VisitI}

theorem reached_append (tr : List (Event VisitI)) (e : Event VisitI) :
    reached (tr ++ [e]) = nextProgress (reached tr) e.1 :=
  progressProtocol.after_append (0 : ℚ) tr [e]

theorem le_nextProgress (least : ℚ) (o : VisitOp) : least ≤ nextProgress least o := by
  cases o with
  | setProgress progress =>
    cases progress with
    | finite => exact le_max_left _ _
    | _ => exact le_rfl
  | _ => exact le_rfl

theorem reached_le_append (tr mid : List (Event VisitI)) : reached tr ≤ reached (tr ++ mid) := by
  induction mid using List.reverseRecOn with
  | nil => rw [List.append_nil]
  | append_singleton mid e ih =>
    rw [← List.append_assoc, reached_append]
    exact ih.trans (le_nextProgress _ _)

theorem setProgress_of_reported {x : PyFloat} (h : reported e = some x) : e.1 = .setProgress x := by
  obtain ⟨o, a⟩ := e
  cases o with
  | setProgress y =>
    obtain rfl := Option.some.inj h
    rfl
  | _ => cases h

theorem lt_one_of_allowsProgress {least : ℚ} {o : VisitOp} (h : allowsProgress least o) : least < 1 := by
  cases o with
  | setProgress => exact h.1
  | _ => exact h

/-- The operation that completes the progress reports `1`. -/
theorem reported_one {least : ℚ} (hallows : allowsProgress least e.1) (hnext : nextProgress least e.1 = 1) :
    reported e = some (.finite 1) := by
  have hlt := lt_one_of_allowsProgress hallows
  obtain ⟨o, a⟩ := e
  cases o with
  | setProgress x =>
    cases x with
    | finite progress =>
      have hspan : spanStart progress = 1 := by
        rcases max_choice least (spanStart progress) with hmax | hmax
        · exact absurd (hmax.symm.trans hnext) hlt.ne
        · exact hmax.symm.trans hnext
      have hle : progress ≤ 1 := hallows.2.2
      have hge : 1 ≤ progress := hspan.symm.le.trans (spanStart_le progress)
      rw [le_antisymm hle hge]
      rfl
    | _ => exact hallows.2.elim
  | _ => exact absurd hnext hlt.ne

end Reached

/-- What the reports of a visit are like. -/
structure ProgressClimbs (tr : List (Event VisitI)) (out : Outcome PyError Bool) : Prop where
  valued {e : Event VisitI} {x : PyFloat} : e ∈ tr → reported e = some x →
    ∃ progress, x = .finite progress ∧ 0 ≤ progress ∧ progress ≤ 1
  climbs {before mid after : List (Event VisitI)} {e e' : Event VisitI} {progress progress' : ℚ} :
    tr = before ++ e :: (mid ++ e' :: after) → reported e = some (.finite progress) →
      reported e' = some (.finite progress') → spanStart progress ≤ progress'
  last {before after : List (Event VisitI)} {e : Event VisitI} : tr = before ++ e :: after →
    reported e = some (.finite 1) → after = [] ∧ (out = .pending ∨ out = .returned true)
  completes : out = .returned true → ∃ before e, tr = before ++ [e] ∧ reported e = some (.finite 1)

/-- The progress of a visit never falls behind the span it has reached, whatever the server reports of its jobs.  A
visit that returns `True` reports `1` in the end, and no other visit ever reports it. -/
theorem progressClimbs {rt : Runtime} {fuel : ℕ} {fromNode toNode : SessionNode} {config : ProviderConfig}
    {tr : List (Event VisitI)} {out : Outcome PyError Bool} (hscheduled : toNode.scheduledEntities ≠ [])
    (h : Exec (performVisitNodeEdge rt fuel fromNode toNode config) tr out) : ProgressClimbs tr out := by
  have hfollows : (performVisitNodeEdge rt fuel fromNode toNode config).Follows progressProtocol Completes (0 : ℚ) :=
    performVisitNodeEdge_completes hscheduled
  have hrun := hfollows.exec h
  have hallowed : ∀ before e after, tr = before ++ e :: after → allowsProgress (reached before) e.1 := hrun.1
  have hend : out = .pending ∨ Completes out (reached tr) := hrun.2
  have hmay : ∀ before e after x, tr = before ++ e :: after → reported e = some x → MayReport (reached before) x :=
    fun before e after x htr hx => by
      have hallows := hallowed before e after htr
      rw [setProgress_of_reported hx] at hallows
      exact hallows.2
  have hnonneg : ∀ before : List (Event VisitI), 0 ≤ reached before := reached_le_append []
  refine ⟨fun {e x} he hx => ?_, fun {before mid after e e' progress progress'} htr hx hx' => ?_,
    fun {before after e} htr hx => ?_, fun hout => ?_⟩
  · obtain ⟨before, after, htr⟩ := List.append_of_mem he
    have hreport := hmay before e after x htr hx
    cases x with
    | finite progress => exact ⟨progress, rfl, (hnonneg before).trans hreport.1, hreport.2⟩
    | _ => exact hreport.elim
  · have hreport := hmay (before ++ e :: mid) e' after _ (by simp [htr]) hx'
    have hafter : spanStart progress ≤ reached (before ++ [e]) := by
      rw [reached_append, setProgress_of_reported hx]
      exact le_max_right _ _
    have hmid := reached_le_append (before ++ [e]) mid
    rw [List.append_assoc, List.singleton_append] at hmid
    exact (hafter.trans hmid).trans hreport.1
  · have hone : 1 ≤ reached (before ++ [e]) := by
      rw [reached_append, setProgress_of_reported hx]
      exact spanStart_one.symm.le.trans (le_max_right _ _)
    cases after with
    | nil =>
      refine ⟨rfl, hend.imp_right fun hcompletes => ?_⟩
      rw [htr] at hcompletes
      exact (hcompletes.resolve_right fun hless => absurd hone hless.2.not_ge).1
    | cons e' after =>
      have hallows := hallowed (before ++ [e]) e' after (by simp [htr])
      exact absurd hone (lt_one_of_allowsProgress hallows).not_ge
  · rw [hout] at hend
    have hreached : reached tr = 1 := ((hend.resolve_left nofun).resolve_right fun hless => hless.1 rfl).2
    rcases List.eq_nil_or_concat tr with rfl | ⟨before, e, htr⟩
    · exact absurd hreached.symm one_ne_zero
    · rw [List.concat_eq_append] at htr
      rw [htr, reached_append] at hreached
      exact ⟨before, e, htr, reported_one (hallowed before e [] htr) hreached⟩

/-- The jobs of the visit report a half each, in the spans from 32 to 42 and from 55 to 88 hundredths. -/
theorem progressClimbs_jobsVisit : jobsTrace.filterMap reported =
      [.finite (2 / 100), .finite (18 / 100), .finite (32 / 100), .finite (37 / 100), .finite (42 / 100),
        .finite (55 / 100), .finite (715 / 1000), .finite (88 / 100), .finite (9 / 10), .finite 1] ∧
    ProgressClimbs jobsTrace (.returned true) :=
  ⟨by decide +kernel, progressClimbs (by decide) exec_jobsVisit⟩

end McritSimilarity

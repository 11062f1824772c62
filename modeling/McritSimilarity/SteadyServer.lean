import McritSimilarity.ServerProcess
import McritSimilarity.VisitCalls

/-!
# Programs on one server

What a steady server makes of `ensure_sample`: it comes to the same end whatever the server was asked
before (`ensureSample_steady`), it finds a sample that is there (`ensureSample_of_hasSample`), and what
it returns is there afterwards (`hasSample_ensureSample`).
-/

set_option autoImplicit false

namespace McritSimilarity

open Python Prog

theorem Grows.refl (samples : StoredSamples) : Grows samples samples := fun _ _ h => h

theorem Grows.trans {samples samples' samples'' : StoredSamples} (h : Grows samples samples')
    (h' : Grows samples' samples'') : Grows samples samples'' :=
  fun sha256 doc hdoc => h' sha256 doc (h sha256 doc hdoc)

theorem HasSample.grow {samples samples' : StoredSamples} {sha256 : String} {sampleId : ℤ}
    (h : HasSample samples sha256 sampleId) (hgrows : Grows samples samples') :
    HasSample samples' sha256 sampleId := by
  obtain ⟨doc, hdoc, hid⟩ := h
  exact ⟨doc, hgrows sha256 doc hdoc, hid⟩

theorem HasSample.unique {samples : StoredSamples} {sha256 : String} {sampleId sampleId' : ℤ}
    (h : HasSample samples sha256 sampleId) (h' : HasSample samples sha256 sampleId') :
    sampleId = sampleId' := by
  obtain ⟨doc, hdoc, hid⟩ := h
  obtain ⟨doc', hdoc', hid'⟩ := h'
  rw [hdoc, Option.some.injEq] at hdoc'
  rw [← hdoc', hid, Except.ok.injEq] at hid'
  exact hid'

theorem SameRows.symm {sampleId : ℤ} {payload payload' : Json} (h : SameRows sampleId payload payload') :
    SameRows sampleId payload' payload :=
  ⟨h.1.symm, fun filter hfilter => (h.2 filter hfilter).symm⟩

theorem SameRows.trans {sampleId : ℤ} {payload payload' payload'' : Json}
    (h : SameRows sampleId payload payload') (h' : SameRows sampleId payload' payload'') :
    SameRows sampleId payload payload'' :=
  ⟨h.1.trans h'.1, fun filter hfilter => (h.2 filter hfilter).trans (h'.2 filter hfilter)⟩

section OneServer

variable {rt : Runtime} {fuel : ℕ} {a : ServerAnswers}

theorem addSample_of_some {samples : StoredSamples} {upload : Upload} {doc : Json}
    (h : samples upload.report.sha256 = some doc) (added : Except PyError Json) :
    addSample samples upload added = samples := by
  cases added with
  | error e => rfl
  | ok added => simp only [addSample, h]

/-- A report that was not there is found under the document it was answered with. -/
theorem addSample_of_none {samples : StoredSamples} {upload : Upload} {added info : Json}
    (h : samples upload.report.sha256 = none) (hinfo : added.getItem "sample_info" = .ok info) :
    addSample samples upload (.ok added) =
      Function.update samples upload.report.sha256 (some info) := by
  simp only [addSample, h, hinfo]

theorem grows_addSample (samples : StoredSamples) (upload : Upload) (added : Except PyError Json) :
    Grows samples (addSample samples upload added) := by
  intro sha256 doc hdoc
  cases hsample : samples upload.report.sha256 with
  | some other =>
    rw [addSample_of_some hsample]
    exact hdoc
  | none =>
    have hne : sha256 ≠ upload.report.sha256 := by
      rintro rfl
      rw [hdoc] at hsample
      cases hsample
    cases added with
    | error e => exact hdoc
    | ok added =>
      cases hinfo : added.getItem "sample_info" with
      | error e =>
        simp only [addSample, hsample, hinfo]
        exact hdoc
      | ok info =>
        rw [addSample_of_none hsample hinfo, Function.update_of_ne hne]
        exact hdoc

theorem grows_samplesAfter (a : ServerAnswers) (samples : StoredSamples) (o : ServerOp) :
    Grows samples (a.samplesAfter samples o) := by
  cases o with
  | addReport upload => exact grows_addSample samples upload _
  | _ => exact .refl _

/-- The samples of a server only grow while it answers a program. -/
theorem grows_run {α : Type} (p : SampleProg α) (c : ServerContent) :
    Grows c.samples (p.run a.serve c).2.samples := by
  have hkeeps : Keeps a.serve (fun c' => Grows c.samples c'.samples) p := by
    refine (onlyCalls_true p).keeps fun o c' _ hc' => ?_
    cases o with
    | server o => exact hc'.trans (grows_samplesAfter a _ o)
    | _ => exact hc'
  exact hkeeps c (.refl _)

/-- A program that uploads nothing leaves the samples as they are. -/
theorem samples_run {α : Type} {p : SampleProg α} (hp : p.OnlyCalls NoUpload) (c : ServerContent) :
    (p.run a.serve c).2.samples = c.samples := by
  have hkeeps : Keeps a.serve (fun c' => c'.samples = c.samples) p := by
    refine hp.keeps fun o c' ho hc' => ?_
    cases o with
    | server o =>
      cases o with
      | addReport upload => exact ho.elim
      | _ => exact hc'
    | _ => exact hc'
  exact hkeeps c rfl

/-- What follows the reply to a request. -/
theorem run_request_reply (o : ServerOp) (c : ServerContent) {α : Type} (f : o.Result → SampleProg α) :
    (request o >>= f).run a.serve c =
      (Prog.ofExcept (a.reply c o) >>= f).run a.serve ⟨a.samplesAfter c.samples o, o :: c.asked⟩ := by
  rw [run_bind, run_bind]
  rfl

theorem run_request {o : ServerOp} {r : o.Result} {c : ServerContent} (h : a.reply c o = .ok r)
    {α : Type} (f : o.Result → SampleProg α) : (request o >>= f).run a.serve c =
      (f r).run a.serve ⟨a.samplesAfter c.samples o, o :: c.asked⟩ := by
  rw [run_request_reply, h]
  rfl

theorem run_request_error {o : ServerOp} {e : PyError} {c : ServerContent} (h : a.reply c o = .error e)
    {α : Type} (f : o.Result → SampleProg α) : (request o >>= f).run a.serve c =
      (.raised e, ⟨a.samplesAfter c.samples o, o :: c.asked⟩) := by
  rw [run_request_reply, h]
  rfl

theorem run_getSample (sha256 : String) (c : ServerContent) {α : Type}
    (f : Option Json → SampleProg α) : (request (.getSampleBySha256 sha256) >>= f).run a.serve c =
      (f (c.samples sha256)).run a.serve ⟨c.samples, .getSampleBySha256 sha256 :: c.asked⟩ :=
  run_request (o := .getSampleBySha256 sha256) rfl f

theorem existingSample_of_hasSample (ha : a.Steady rt fuel) {c : ServerContent} {sha256 : String}
    {doc : Json} {sampleId : ℤ} (hdoc : c.samples sha256 = some doc)
    (hid : sampleIdOf doc = .ok sampleId) (opts : AwaitOptions) :
    ((existingSample rt fuel doc sha256 opts).run a.serve c).1 =
      .returned ⟨sampleId, sha256, true⟩ := by
  have hindexed := ha.indexed c sha256 sampleId opts ⟨doc, hdoc, hid⟩
  have hprog : existingSample rt fuel doc sha256 opts =
      ((pendingIndexJob rt sampleId >>= fun jobId => awaitIndexing rt fuel jobId opts) >>= fun _ =>
        pure ⟨sampleId, sha256, true⟩) := by
    unfold existingSample
    rw [hid, bind_assoc]
    rfl
  rw [hprog, run_bind]
  generalize (pendingIndexJob rt sampleId >>= fun jobId =>
    awaitIndexing rt fuel jobId opts).run a.serve c = r at hindexed
  obtain ⟨out, c'⟩ := r
  rw [show out = .returned () from hindexed]
  rfl

/-- `ensure_sample` finds a sample that is there. -/
theorem ensureSample_of_hasSample (ha : a.Steady rt fuel) {c : ServerContent} {report : SmdaReport}
    (hsha : report.sha256 ≠ "") {sampleId : ℤ} (hsample : HasSample c.samples report.sha256 sampleId)
    (server : String) (labels : SampleLabels) (opts : AwaitOptions) :
    ((ensureSample rt fuel server report labels opts).run a.serve c).1 =
        .returned ⟨sampleId, report.sha256, true⟩ ∧
      ((ensureSample rt fuel server report labels opts).run a.serve c).2.samples = c.samples := by
  obtain ⟨doc, hdoc, hid⟩ := hsample
  unfold ensureSample
  rw [raiseIf_neg hsha, ret_bind, run_getSample, hdoc]
  exact ⟨existingSample_of_hasSample ha (c := ⟨c.samples, .getSampleBySha256 report.sha256 :: c.asked⟩) hdoc hid opts,
    samples_run (existingSample_onlyCalls rt fuel doc report.sha256 opts) _⟩

/-- An upload leaves the samples that the server has after its answer to `add_report`. -/
theorem samples_uploadSample (report : SmdaReport) (labels : SampleLabels) (opts : AwaitOptions)
    (c : ServerContent) : ((uploadSample rt fuel report labels opts).run a.serve c).2.samples =
      addSample c.samples ⟨report, labels.family, labels.version⟩
        (a.added c.samples ⟨report, labels.family, labels.version⟩) := by
  unfold uploadSample
  cases hadded : a.added c.samples ⟨report, labels.family, labels.version⟩ with
  | error e =>
    rw [run_request_error (o := .addReport _) hadded]
    simp only [ServerAnswers.samplesAfter, hadded]
  | ok added =>
    rw [run_request (o := .addReport _) hadded, samples_run (.bind (onlyCalls_ofExcept _) fun info => ?_)]
    · rw [ServerAnswers.samplesAfter, hadded]
    · split_ifs
      · exact existingSample_onlyCalls rt fuel info report.sha256 opts
      · exact .bind (onlyCalls_ofExcept _) fun _ => .bind (awaitIndexing_onlyCalls _ _ _ _) fun _ => trivial

/-- A program that reads the id of a sample first returns it. -/
theorem returns_of_sampleIdOf {info : Json} {f : ℤ → SampleProg SampleRef}
    (hf : ∀ sampleId, (f sampleId).Returns fun ref => ref.sampleId = sampleId) :
    (Prog.ofExcept (sampleIdOf info) >>= f).Returns fun ref => sampleIdOf info = .ok ref.sampleId := by
  cases sampleIdOf info with
  | error e => trivial
  | ok sampleId => exact (hf sampleId).mono fun _ hid => congrArg Except.ok hid.symm

theorem returns_existingSample (info : Json) (sha256 : String) (opts : AwaitOptions) :
    (existingSample rt fuel info sha256 opts).Returns fun ref => sampleIdOf info = .ok ref.sampleId :=
  returns_of_sampleIdOf fun _ => .bind (returns_true _) fun _ _ => .bind (returns_true _) fun _ _ => rfl

theorem returns_newSample (info jobId : Json) (sha256 : String) (opts : AwaitOptions) :
    (newSample rt fuel info jobId sha256 opts).Returns fun ref => sampleIdOf info = .ok ref.sampleId :=
  returns_of_sampleIdOf fun _ => .bind (returns_true _) fun _ _ => rfl

/-- An upload that returns has added the sample it returns. -/
theorem hasSample_uploadSample {report : SmdaReport} {labels : SampleLabels} {opts : AwaitOptions}
    {c : ServerContent} (hnone : c.samples report.sha256 = none) {ref : SampleRef}
    (href : ((uploadSample rt fuel report labels opts).run a.serve c).1 = .returned ref) :
    HasSample ((uploadSample rt fuel report labels opts).run a.serve c).2.samples report.sha256
      ref.sampleId := by
  rw [samples_uploadSample]
  unfold uploadSample at href
  cases hadded : a.added c.samples ⟨report, labels.family, labels.version⟩ with
  | error e =>
    rw [run_request_error (o := .addReport _) hadded] at href
    cases href
  | ok added =>
    rw [run_request (o := .addReport _) hadded] at href
    cases hinfo : added.getItem "sample_info" with
    | error e =>
      rw [hinfo] at href
      cases href
    | ok info =>
      have hadd : addSample c.samples ⟨report, labels.family, labels.version⟩ (.ok added) =
          Function.update c.samples report.sha256 (some info) := addSample_of_none hnone hinfo
      rw [hadd]
      refine ⟨info, Function.update_self _ _ _, ?_⟩
      rw [hinfo] at href
      simp only [uncaught, Prog.ofExcept, ret_bind] at href
      split_ifs at href
      · exact (returns_existingSample info report.sha256 opts).run href
      · exact (returns_newSample info _ report.sha256 opts).run href

/-- What `ensure_sample` comes to does not depend on what a server was asked before. -/
theorem ensureSample_steady (ha : a.Steady rt fuel) (samples : StoredSamples)
    (asked asked' : List ServerOp) (server : String) (report : SmdaReport) (labels : SampleLabels)
    (opts : AwaitOptions) :
    ((ensureSample rt fuel server report labels opts).run a.serve ⟨samples, asked⟩).1 =
        ((ensureSample rt fuel server report labels opts).run a.serve ⟨samples, asked'⟩).1 ∧
      ((ensureSample rt fuel server report labels opts).run a.serve ⟨samples, asked⟩).2.samples =
        ((ensureSample rt fuel server report labels opts).run a.serve ⟨samples, asked'⟩).2.samples := by
  by_cases hsha : report.sha256 = ""
  · unfold ensureSample
    rw [raiseIf_pos hsha]
    exact ⟨rfl, rfl⟩
  cases hdoc : samples report.sha256 with
  | some doc =>
    cases hid : sampleIdOf doc with
    | ok sampleId =>
      have hsample : HasSample samples report.sha256 sampleId := ⟨doc, hdoc, hid⟩
      have hleft := ensureSample_of_hasSample ha (c := ⟨samples, asked⟩) hsha hsample server labels opts
      have hright := ensureSample_of_hasSample ha (c := ⟨samples, asked'⟩) hsha hsample server labels opts
      exact ⟨hleft.1.trans hright.1.symm, hleft.2.trans hright.2.symm⟩
    | error e =>
      unfold ensureSample existingSample
      rw [raiseIf_neg hsha, ret_bind, run_getSample, run_getSample]
      simp only [hdoc, hid, Prog.ofExcept, raise_bind]
      exact ⟨rfl, rfl⟩
  | none =>
    unfold ensureSample
    rw [raiseIf_neg hsha, ret_bind, run_getSample, run_getSample]
    simp only [hdoc]
    by_cases hpersist : labels.persist = true
    · simp only [raiseIf_neg (not_not.2 hpersist), ret_bind, samples_uploadSample]
      exact ⟨ha.uploaded samples _ _ report labels opts hdoc, trivial⟩
    · simp only [raiseIf_pos hpersist, raise_bind]
      exact ⟨rfl, rfl⟩

/-- A sample that `ensure_sample` returns is on the server. -/
theorem hasSample_ensureSample (ha : a.Steady rt fuel) {c : ServerContent} {server : String}
    {report : SmdaReport} {labels : SampleLabels} {opts : AwaitOptions} {ref : SampleRef}
    (href : ((ensureSample rt fuel server report labels opts).run a.serve c).1 = .returned ref) :
    report.sha256 ≠ "" ∧ HasSample
      ((ensureSample rt fuel server report labels opts).run a.serve c).2.samples report.sha256
        ref.sampleId := by
  by_cases hsha : report.sha256 = ""
  · unfold ensureSample at href
    rw [raiseIf_pos hsha] at href
    cases href
  refine ⟨hsha, ?_⟩
  cases hdoc : c.samples report.sha256 with
  | some doc =>
    cases hid : sampleIdOf doc with
    | ok sampleId =>
      have hsample : HasSample c.samples report.sha256 sampleId := ⟨doc, hdoc, hid⟩
      obtain ⟨hout, hsamples⟩ := ensureSample_of_hasSample ha hsha hsample server labels opts
      rw [hout, Outcome.returned.injEq] at href
      rw [hsamples, ← href]
      exact hsample
    | error e =>
      unfold ensureSample existingSample at href
      rw [raiseIf_neg hsha, ret_bind, run_getSample] at href
      simp only [hdoc, hid, Prog.ofExcept, raise_bind] at href
      cases href
  | none =>
    unfold ensureSample at href ⊢
    rw [raiseIf_neg hsha, ret_bind, run_getSample] at href ⊢
    simp only [hdoc] at href ⊢
    by_cases hpersist : labels.persist = true
    · simp only [raiseIf_neg (not_not.2 hpersist), ret_bind] at href ⊢
      exact hasSample_uploadSample (c := ⟨c.samples, .getSampleBySha256 report.sha256 :: c.asked⟩) hdoc href
    · simp only [raiseIf_pos hpersist, raise_bind] at href
      cases href

end OneServer

end McritSimilarity

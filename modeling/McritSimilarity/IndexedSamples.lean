import McritSimilarity.JobPolling

/-!
# Indexed samples

`Route` lists the three ways in which `ensure_sample` comes to a sample: it was found, it was uploaded, or its
upload met another one.  Each way ends with the wait for at most one indexing job.
-/

set_option autoImplicit false

namespace McritSimilarity

open Python Prog

variable {rt : Runtime} {fuel : ℕ} {opts : AwaitOptions} {tr : List (Event SampleI)}

/-! ## Calls while waiting -/

/-- What may be called while the job is awaited. -/
def WaitsFor (jobId : String) : Event SampleI → Prop
  | ⟨.server (.getJobData id), _⟩ => id = jobId
  | ⟨.server (.getJobs _ _), _⟩ => False
  | ⟨.server (.getSampleBySha256 _), _⟩ => False
  | ⟨.server (.addReport _), _⟩ => False
  | _ => True

theorem AfterPoll.waitsFor {jobId : String} {e : Event SampleI} (h : AfterPoll e) : WaitsFor jobId e := by
  rcases h.cases with ⟨fraction, rfl⟩ | ⟨resultId, answer, rfl⟩ | ⟨jobId', answer, rfl⟩ <;> trivial

theorem PollRun.waitsFor {jobId : String} {st : AwaitState} {answer : Except PyError (Option Json)}
    {rest : List (Event SampleI)} {round : Outcome PyError Round} (h : PollRun jobId opts st answer rest round) :
    ∀ e ∈ rest, WaitsFor jobId e := by
  intro e he
  rcases h.after e he with hafter | rfl | rfl
  · exact hafter.waitsFor
  · trivial
  · trivial

theorem RoundRun.waitsFor {jobId : String} {st : AwaitState} {round : Outcome PyError Round}
    (h : RoundRun jobId opts st tr round) : ∀ e ∈ tr, WaitsFor jobId e := by
  intro e he
  cases h with
  | stopped =>
    obtain rfl := List.mem_singleton.1 he
    trivial
  | polled hasked h =>
    rcases List.mem_append.1 he with he | he
    · rcases hasked with rfl | rfl
      · cases he
      · obtain rfl := List.mem_singleton.1 he
        trivial
    · rcases List.mem_cons.1 he with rfl | he
      · rfl
      · exact h.waitsFor e he

theorem LoopRun.waitsFor {jobId : String} {st : AwaitState} {out : Outcome PyError Json}
    (h : LoopRun jobId opts fuel st tr out) : ∀ e ∈ tr, WaitsFor jobId e := by
  induction h with
  | spin => simp
  | raised h => exact h.waitsFor
  | returned h => exact h.waitsFor
  | next h _ ih =>
    intro e he
    rcases List.mem_append.1 he with he | he
    · exact h.waitsFor e he
    · exact ih e he

/-! ## Jobs that are awaited -/

/-- A poll showed the job finished, and its result was fetched after that. -/
def Completed (jobId : String) (tr : List (Event SampleI)) : Prop :=
  ∃ before job after value, tr = before ++ ⟨.server (.getJobData jobId), .ok (some job)⟩ :: after ∧
    jobFinished job = true ∧ jobTerminated job = false ∧ jobFailed job = false ∧ value.isNull = false ∧
      Fetched jobId after value

/-- The wait for a job, if there is one. -/
inductive Waited : Option String → List (Event SampleI) → Prop where
  | skipped : Waited none []
  | awaited {jobId : String} {tr : List (Event SampleI)} (hcompleted : Completed jobId tr)
      (hwaits : ∀ e ∈ tr, WaitsFor jobId e) : Waited (some jobId) tr

theorem awaitJob_returned {jobId : String} {value : Json}
    (h : Completes (awaitJob rt fuel jobId opts) tr (.returned value)) : Waited (some jobId) tr := by
  have hloop := awaitLoop_cases h
  refine .awaited ?_ hloop.waitsFor
  rcases hloop.ends with ⟨-, hnull, before, job, after, htr, -, hfinished, hterminated, hfailed, hfetched⟩ | hover
  · exact ⟨before, job, after, value, htr, hfinished, hterminated, hfailed, hnull, hfetched⟩
  · cases hover.raised

theorem awaitIndexing_bind_cases {α : Type} {jobId : Option String} {f : Unit → SampleProg α} {a : α}
    (h : Completes (awaitIndexing rt fuel jobId opts >>= f) tr (.returned a)) :
    ∃ tr₁ tr₂, tr = tr₁ ++ tr₂ ∧ Waited jobId tr₁ ∧ Completes (f ()) tr₂ (.returned a) := by
  cases jobId with
  | none => exact ⟨[], tr, rfl, .skipped, h⟩
  | some jobId =>
    have hbind : (awaitIndexing rt fuel (some jobId) opts >>= f) = awaitJob rt fuel jobId opts >>= fun _ => f () := by
      unfold awaitIndexing
      rw [bind_assoc]
      rfl
    rw [hbind] at h
    rcases Completes.bind_cases h with ⟨e, -, hout⟩ | ⟨-, hout⟩ | ⟨value, tr₁, tr₂, rfl, hawait, hrest⟩
    · cases hout
    · cases hout
    · exact ⟨tr₁, tr₂, rfl, awaitJob_returned hawait, hrest⟩

/-! ## Jobs that are listed -/

/-- An indexing job of exactly this sample that is queued or in progress. -/
def Pending (rt : Runtime) (sampleId : ℤ) (job : Json) : Prop :=
  indexesSample rt job sampleId = true ∧ (jobState job = .queued ∨ jobState job = .inProgress)

instance (sampleId : ℤ) (job : Json) : Decidable (Pending rt sampleId job) := by
  unfold Pending
  infer_instance

theorem firstPending_eq (sampleId : ℤ) (jobs : List Json) : firstPending rt sampleId jobs =
    jobs.findSome? fun job => if Pending rt sampleId job then jobDocumentId rt job else none := by
  induction jobs with
  | nil => rfl
  | cons job jobs ih =>
    rw [List.findSome?_cons]
    unfold firstPending
    by_cases hpending : Pending rt sampleId job
    · rw [if_pos hpending, if_pos (show _ ∧ _ from hpending), ih]
      cases jobDocumentId rt job <;> rfl
    · rw [if_neg hpending, if_neg (show ¬ (_ ∧ _) from hpending), ih]

/-- The first pending job with a usable id. -/
theorem firstPending_eq_some_iff {sampleId : ℤ} {jobs : List Json} {jobId : String} :
    firstPending rt sampleId jobs = some jobId ↔ ∃ before job after, jobs = before ++ job :: after ∧
      Pending rt sampleId job ∧ jobDocumentId rt job = some jobId ∧
        ∀ earlier ∈ before, Pending rt sampleId earlier → jobDocumentId rt earlier = none := by
  rw [firstPending_eq, List.findSome?_eq_some_iff]
  simp only [Option.ite_none_right_eq_some, ite_eq_right_iff, and_assoc]

/-! ## Routes -/

/-- How a call of `ensure_sample` came to its sample. -/
inductive Route (rt : Runtime) (report : SmdaReport) (labels : SampleLabels) :
    List (Event SampleI) → SampleRef → Prop where
  | found {sampleInfo : Json} {sampleId : ℤ} {jobs : List Json} {tr : List (Event SampleI)}
      (hid : sampleIdOf sampleInfo = .ok sampleId) (h : Waited (firstPending rt sampleId jobs) tr) :
      Route rt report labels (⟨.server (.getSampleBySha256 report.sha256), .ok (some sampleInfo)⟩ ::
        ⟨.server (.getJobs indexMethod sampleId), .ok jobs⟩ :: tr) ⟨sampleId, report.sha256, true⟩
  | raced {added sampleInfo : Json} {sampleId : ℤ} {jobs : List Json} {tr : List (Event SampleI)}
      (hpersist : labels.persist = true) (hexisted : (field added "existed").truthy = true)
      (hinfo : added.getItem "sample_info" = .ok sampleInfo) (hid : sampleIdOf sampleInfo = .ok sampleId)
      (h : Waited (firstPending rt sampleId jobs) tr) :
      Route rt report labels (⟨.server (.getSampleBySha256 report.sha256), .ok none⟩ ::
        ⟨.server (.addReport ⟨report, labels.family, labels.version⟩), .ok added⟩ ::
        ⟨.server (.getJobs indexMethod sampleId), .ok jobs⟩ :: tr) ⟨sampleId, report.sha256, true⟩
  | uploaded {added sampleInfo : Json} {sampleId : ℤ} {tr : List (Event SampleI)}
      (hpersist : labels.persist = true) (hexisted : (field added "existed").truthy = false)
      (hinfo : added.getItem "sample_info" = .ok sampleInfo) (hid : sampleIdOf sampleInfo = .ok sampleId)
      (h : Waited (if (field added "job_id").truthy then some (rt.str (field added "job_id")) else none) tr) :
      Route rt report labels (⟨.server (.getSampleBySha256 report.sha256), .ok none⟩ ::
        ⟨.server (.addReport ⟨report, labels.family, labels.version⟩), .ok added⟩ :: tr)
        ⟨sampleId, report.sha256, false⟩

section Returned

variable {ref : SampleRef}

theorem ofExcept_bind_returned {α β : Type} {r : Except PyError α} {f : α → SampleProg β} {b : β}
    (h : Completes (Prog.ofExcept r >>= f) tr (.returned b)) : ∃ a, r = .ok a ∧ Completes (f a) tr (.returned b) := by
  cases r with
  | error e => cases h.raise_cases.2
  | ok a => exact ⟨a, rfl, h⟩

theorem request_bind_returned {α : Type} {o : ServerOp} {f : o.Result → SampleProg α} {b : α}
    (h : Completes (request o >>= f) tr (.returned b)) :
    ∃ a tr', tr = ⟨.server o, .ok a⟩ :: tr' ∧ Completes (f a) tr' (.returned b) := by
  rcases request_bind_cases h with ⟨e, -, hout⟩ | hrest
  · cases hout
  · exact hrest

theorem existingSample_returned {sampleInfo : Json} {sha256 : String}
    (h : Completes (existingSample rt fuel sampleInfo sha256 opts) tr (.returned ref)) :
    ∃ sampleId jobs tr', sampleIdOf sampleInfo = .ok sampleId ∧ ref = ⟨sampleId, sha256, true⟩ ∧
      tr = ⟨.server (.getJobs indexMethod sampleId), .ok jobs⟩ :: tr' ∧
        Waited (firstPending rt sampleId jobs) tr' := by
  obtain ⟨sampleId, hid, hlist⟩ := ofExcept_bind_returned h
  unfold pendingIndexJob at hlist
  rw [bind_assoc] at hlist
  obtain ⟨jobs, tr', rfl, hwait⟩ := request_bind_returned hlist
  obtain ⟨tr₁, tr₂, rfl, hwaited, hret⟩ := awaitIndexing_bind_cases hwait
  obtain ⟨rfl, hout⟩ := hret.ret_cases
  cases hout
  exact ⟨sampleId, jobs, tr₁, hid, rfl, by rw [List.append_nil], hwaited⟩

theorem newSample_returned {sampleInfo jobId : Json} {sha256 : String}
    (h : Completes (newSample rt fuel sampleInfo jobId sha256 opts) tr (.returned ref)) :
    ∃ sampleId, sampleIdOf sampleInfo = .ok sampleId ∧ ref = ⟨sampleId, sha256, false⟩ ∧
      Waited (if jobId.truthy then some (rt.str jobId) else none) tr := by
  obtain ⟨sampleId, hid, hwait⟩ := ofExcept_bind_returned h
  obtain ⟨tr₁, tr₂, rfl, hwaited, hret⟩ := awaitIndexing_bind_cases hwait
  obtain ⟨rfl, hout⟩ := hret.ret_cases
  cases hout
  exact ⟨sampleId, hid, rfl, by rwa [List.append_nil]⟩

theorem ensureSample_returned {server : String} {report : SmdaReport} {labels : SampleLabels}
    (h : Completes (ensureSample rt fuel server report labels opts) tr (.returned ref)) :
    Route rt report labels tr ref := by
  rcases Completes.raiseIf_bind_cases h with ⟨-, -, hout⟩ | ⟨-, hlookup⟩
  · cases hout
  · obtain ⟨existing, tr', rfl, hrest⟩ := request_bind_returned hlookup
    cases existing with
    | some sampleInfo =>
      obtain ⟨sampleId, jobs, tr'', hid, rfl, rfl, hwaited⟩ := existingSample_returned hrest
      exact .found hid hwaited
    | none =>
      rcases Completes.raiseIf_bind_cases hrest with ⟨-, -, hout⟩ | ⟨hpersist, hupload⟩
      · cases hout
      · rw [not_not] at hpersist
        obtain ⟨added, tr'', rfl, hadded⟩ := request_bind_returned hupload
        obtain ⟨sampleInfo, hinfo, hsample⟩ := ofExcept_bind_returned hadded
        have hitem : added.getItem "sample_info" = .ok sampleInfo := by
          cases hget : added.getItem "sample_info" with
          | ok info =>
            rw [hget] at hinfo
            cases hinfo
            rfl
          | error e =>
            rw [hget] at hinfo
            cases hinfo
        split at hsample
        next hexisted =>
          obtain ⟨sampleId, jobs, tr₃, hid, rfl, rfl, hwaited⟩ := existingSample_returned hsample
          exact .raced hpersist hexisted hitem hid hwaited
        next hexisted =>
          obtain ⟨sampleId, hid, rfl, hwaited⟩ := newSample_returned hsample
          exact .uploaded hpersist (by simpa using hexisted) hitem hid hwaited

end Returned

/-! ## What a route guarantees -/

def isUpload : Event SampleI → Bool
  | ⟨.server (.addReport _), _⟩ => true
  | _ => false

/-- The document in which the server gave the sample of the hash. -/
inductive Gave (sha256 : String) (tr : List (Event SampleI)) (sampleInfo : Json) : Prop where
  | found (h : ⟨.server (.getSampleBySha256 sha256), .ok (some sampleInfo)⟩ ∈ tr) : Gave sha256 tr sampleInfo
  | added {upload : Upload} {added : Json} (h : ⟨.server (.addReport upload), .ok added⟩ ∈ tr)
      (hsha256 : upload.report.sha256 = sha256) (hinfo : added.getItem "sample_info" = .ok sampleInfo) :
      Gave sha256 tr sampleInfo

/-- The sample was on the server before the call or came to it otherwise. -/
inductive Existed (sha256 : String) (tr : List (Event SampleI)) : Prop where
  | found {sampleInfo : Json} (h : ⟨.server (.getSampleBySha256 sha256), .ok (some sampleInfo)⟩ ∈ tr) :
      Existed sha256 tr
  | raced {upload : Upload} {added : Json} (h : ⟨.server (.addReport upload), .ok added⟩ ∈ tr)
      (hexisted : (field added "existed").truthy = true) : Existed sha256 tr

/-- The server names the job in its answer to an upload that created the sample. -/
def NamedByUpload (rt : Runtime) (tr : List (Event SampleI)) (jobId : String) : Prop :=
  ∃ upload added, ⟨.server (.addReport upload), .ok added⟩ ∈ tr ∧ (field added "existed").truthy = false ∧
    (field added "job_id").truthy = true ∧ jobId = rt.str (field added "job_id")

/-- The job is the first in the list that is a pending job of the sample with a usable id. -/
def FirstListed (rt : Runtime) (tr : List (Event SampleI)) (sampleId : ℤ) (jobId : String) : Prop :=
  ∃ before job after, ⟨.server (.getJobs indexMethod sampleId), .ok (before ++ job :: after)⟩ ∈ tr ∧
    Pending rt sampleId job ∧ jobDocumentId rt job = some jobId ∧
      ∀ earlier ∈ before, Pending rt sampleId earlier → jobDocumentId rt earlier = none

/-- What holds of the calls behind a sample that was returned. -/
structure Indexed (rt : Runtime) (report : SmdaReport) (labels : SampleLabels) (tr : List (Event SampleI))
    (ref : SampleRef) : Prop where
  uploads_le : tr.countP isUpload ≤ 1
  upload (upload : Upload) (a : Except PyError Json) : ⟨.server (.addReport upload), a⟩ ∈ tr →
    labels.persist = true ∧ upload = ⟨report, labels.family, labels.version⟩ ∧
      ⟨.server (.getSampleBySha256 report.sha256), .ok none⟩ ∈ tr
  sha256 : ref.sha256 = report.sha256
  sampleId : ∃ sampleInfo, Gave report.sha256 tr sampleInfo ∧ sampleIdOf sampleInfo = .ok ref.sampleId
  listed : Existed report.sha256 tr → ∃ jobs, ⟨.server (.getJobs indexMethod ref.sampleId), .ok jobs⟩ ∈ tr
  completed (jobId : String) : FirstListed rt tr ref.sampleId jobId ∨ NamedByUpload rt tr jobId → Completed jobId tr
  polled (jobId : String) (a : Except PyError (Option Json)) : ⟨.server (.getJobData jobId), a⟩ ∈ tr →
    FirstListed rt tr ref.sampleId jobId ∨ NamedByUpload rt tr jobId

theorem WaitsFor.no_upload {jobId : String} {e : Event SampleI} (h : WaitsFor jobId e) : isUpload e = false := by
  obtain ⟨o, a⟩ := e
  cases o with
  | server o =>
    cases o with
    | addReport => exact False.elim h
    | _ => rfl
  | _ => rfl

theorem Completed.append {jobId : String} (h : Completed jobId tr) (head : List (Event SampleI)) :
    Completed jobId (head ++ tr) := by
  obtain ⟨before, job, after, value, rfl, hcompleted⟩ := h
  exact ⟨head ++ before, job, after, value, (List.append_assoc _ _ _).symm, hcompleted⟩

section Waited

variable {target : Option String} {head : List (Event SampleI)} (h : Waited target tr)

include h

theorem Waited.mem_iff {e : Event SampleI} (hcall : ∀ id, ¬ WaitsFor id e) : e ∈ head ++ tr ↔ e ∈ head := by
  refine ⟨fun he => ?_, List.mem_append_left _⟩
  rcases List.mem_append.1 he with he | he
  · exact he
  · cases h with
    | skipped => cases he
    | awaited _ hwaits => exact (hcall _ (hwaits e he)).elim

theorem Waited.uploads_eq : tr.countP isUpload = 0 := by
  cases h with
  | skipped => rfl
  | awaited _ hwaits =>
    exact List.countP_eq_zero.2 fun e he => by simp [(hwaits e he).no_upload]

/-- The wait for the job that the list or the upload names is all that is polled. -/
theorem Waited.polled (hquiet : ∀ e ∈ head, isPoll e = false) :
    (∀ jobId, target = some jobId → Completed jobId (head ++ tr)) ∧
      ∀ jobId a, ⟨.server (.getJobData jobId), a⟩ ∈ head ++ tr → target = some jobId := by
  have hpolled : ∀ {jobId a}, (⟨.server (.getJobData jobId), a⟩ : Event SampleI) ∉ head := by
    intro jobId a hmem
    cases hquiet _ hmem
  cases h with
  | skipped =>
    refine ⟨nofun, fun jobId a hmem => ?_⟩
    rw [List.append_nil] at hmem
    exact (hpolled hmem).elim
  | @awaited awaited _ hcompleted hwaits =>
    refine ⟨fun jobId hjobId => ?_, fun jobId a hmem => ?_⟩
    · cases hjobId
      exact hcompleted.append head
    · rcases List.mem_append.1 hmem with hmem | hmem
      · exact (hpolled hmem).elim
      · have hid : jobId = awaited := hwaits _ hmem
        rw [hid]

/-- Where the list was asked for, its first job is awaited. -/
theorem Waited.listed_iff {sampleId : ℤ} {jobs : List Json} {jobId : String}
    (htarget : firstPending rt sampleId jobs = target)
    (hlist : ∀ listed, ⟨.server (.getJobs indexMethod sampleId), .ok listed⟩ ∈ head ↔ listed = jobs)
    (hupload : ∀ upload added, ⟨.server (.addReport upload), .ok added⟩ ∈ head →
      (field added "existed").truthy = true) :
    (FirstListed rt (head ++ tr) sampleId jobId ∨ NamedByUpload rt (head ++ tr) jobId) ↔ target = some jobId := by
  rw [or_iff_left, ← htarget, firstPending_eq_some_iff]
  · constructor
    · rintro ⟨before, job, after, hmem, hfirst⟩
      exact ⟨before, job, after, ((hlist _).1 ((h.mem_iff fun _ => id).1 hmem)).symm, hfirst⟩
    · rintro ⟨before, job, after, rfl, hfirst⟩
      exact ⟨before, job, after, (h.mem_iff fun _ => id).2 ((hlist _).2 rfl), hfirst⟩
  · rintro ⟨upload, added, hmem, hexisted, -⟩
    have hyes := hupload _ _ ((h.mem_iff fun _ => id).1 hmem)
    rw [hexisted] at hyes
    cases hyes

/-- Where it was not, the job that the upload names is. -/
theorem Waited.uploaded_iff {sampleId : ℤ} {added : Json} {upload : Upload} {jobId : String}
    (htarget : (if (field added "job_id").truthy then some (rt.str (field added "job_id")) else none) = target)
    (hlist : ∀ listed, ⟨.server (.getJobs indexMethod sampleId), .ok listed⟩ ∉ head)
    (hexisted : (field added "existed").truthy = false)
    (hupload : ∀ upload' added', ⟨.server (.addReport upload'), .ok added'⟩ ∈ head ↔
      upload' = upload ∧ added' = added) :
    (FirstListed rt (head ++ tr) sampleId jobId ∨ NamedByUpload rt (head ++ tr) jobId) ↔ target = some jobId := by
  rw [or_iff_right, ← htarget, Option.ite_none_right_eq_some, Option.some.injEq]
  · constructor
    · rintro ⟨upload', added', hmem, -, hjobId, rfl⟩
      obtain ⟨-, rfl⟩ := (hupload _ _).1 ((h.mem_iff fun _ => id).1 hmem)
      exact ⟨hjobId, rfl⟩
    · rintro ⟨hjobId, rfl⟩
      exact ⟨upload, added, (h.mem_iff fun _ => id).2 ((hupload _ _).2 ⟨rfl, rfl⟩), hexisted, hjobId, rfl⟩
  · rintro ⟨before, job, after, hmem, -⟩
    exact hlist _ ((h.mem_iff fun _ => id).1 hmem)

end Waited

/-- Behind the head of a route there is only the wait for its job. -/
theorem Waited.indexed {report : SmdaReport} {labels : SampleLabels} {ref : SampleRef} {target : Option String}
    {head : List (Event SampleI)} (h : Waited target tr) (hquiet : ∀ e ∈ head, isPoll e = false)
    (huploads : head.countP isUpload ≤ 1)
    (hupload : ∀ upload a, ⟨.server (.addReport upload), a⟩ ∈ head → labels.persist = true ∧
      upload = ⟨report, labels.family, labels.version⟩ ∧
        ⟨.server (.getSampleBySha256 report.sha256), .ok none⟩ ∈ head)
    (hsha256 : ref.sha256 = report.sha256)
    (hgave : ∃ sampleInfo, Gave report.sha256 head sampleInfo ∧ sampleIdOf sampleInfo = .ok ref.sampleId)
    (hlisted : Existed report.sha256 head → ∃ jobs, ⟨.server (.getJobs indexMethod ref.sampleId), .ok jobs⟩ ∈ head)
    (hnamed : ∀ jobId, (FirstListed rt (head ++ tr) ref.sampleId jobId ∨ NamedByUpload rt (head ++ tr) jobId) ↔
      target = some jobId) :
    Indexed rt report labels (head ++ tr) ref where
  uploads_le := by
    rw [List.countP_append, h.uploads_eq]
    exact huploads
  upload := fun upload a hmem => by
    obtain ⟨hpersist, heq, hmissing⟩ := hupload upload a ((h.mem_iff fun _ => id).1 hmem)
    exact ⟨hpersist, heq, List.mem_append_left tr hmissing⟩
  sha256 := hsha256
  sampleId := by
    obtain ⟨sampleInfo, hfound | ⟨hadded, hreport, hinfo⟩, hid⟩ := hgave
    · exact ⟨sampleInfo, .found (List.mem_append_left tr hfound), hid⟩
    · exact ⟨sampleInfo, .added (List.mem_append_left tr hadded) hreport hinfo, hid⟩
  listed := by
    have hexisted : Existed report.sha256 (head ++ tr) → Existed report.sha256 head := by
      rintro (hfound | ⟨hadded, hyes⟩)
      · exact .found ((h.mem_iff fun _ => id).1 hfound)
      · exact .raced ((h.mem_iff fun _ => id).1 hadded) hyes
    intro hex
    obtain ⟨jobs, hjobs⟩ := hlisted (hexisted hex)
    exact ⟨jobs, List.mem_append_left tr hjobs⟩
  completed := fun jobId hjobId => (h.polled hquiet).1 jobId ((hnamed jobId).1 hjobId)
  polled := fun jobId a hmem => (hnamed jobId).2 ((h.polled hquiet).2 jobId a hmem)

theorem Route.indexed {report : SmdaReport} {labels : SampleLabels} {ref : SampleRef}
    (h : Route rt report labels tr ref) : Indexed rt report labels tr ref := by
  cases h with
  | @found sampleInfo sampleId jobs tr hid hwaited =>
    let head : List (Event SampleI) := [⟨.server (.getSampleBySha256 report.sha256), .ok (some sampleInfo)⟩,
      ⟨.server (.getJobs indexMethod sampleId), .ok jobs⟩]
    have hupload : ∀ upload a, (⟨.server (.addReport upload), a⟩ : Event SampleI) ∉ head := by
      intro upload a hmem
      rcases List.mem_pair.1 hmem with heq | heq <;> cases heq
    have hlist : ∀ listed, (⟨.server (.getJobs indexMethod sampleId), .ok listed⟩ : Event SampleI) ∈ head ↔
        listed = jobs := by
      intro listed
      refine ⟨fun hmem => ?_, fun heq => heq ▸ List.mem_cons_of_mem _ List.mem_cons_self⟩
      rcases List.mem_pair.1 hmem with heq | heq
      · cases heq
      · cases heq
        rfl
    refine @Waited.indexed _ _ _ _ _ _ head hwaited (by simp [head, isPoll]) (Nat.zero_le 1) ?_ rfl
      ⟨sampleInfo, .found List.mem_cons_self, hid⟩ (fun _ => ⟨jobs, (hlist jobs).2 rfl⟩) fun jobId => ?_
    · exact fun upload a hmem => (hupload upload a hmem).elim
    · exact hwaited.listed_iff rfl hlist fun upload added hmem => (hupload upload _ hmem).elim
  | @raced added sampleInfo sampleId jobs tr hpersist hexisted hinfo hid hwaited =>
    let head : List (Event SampleI) := [⟨.server (.getSampleBySha256 report.sha256), .ok none⟩,
      ⟨.server (.addReport ⟨report, labels.family, labels.version⟩), .ok added⟩,
      ⟨.server (.getJobs indexMethod sampleId), .ok jobs⟩]
    have hupload : ∀ upload a, (⟨.server (.addReport upload), a⟩ : Event SampleI) ∈ head →
        upload = ⟨report, labels.family, labels.version⟩ ∧ a = .ok added := by
      intro upload a hmem
      rcases List.mem_cons.1 hmem with heq | hmem
      · cases heq
      · rcases List.mem_pair.1 hmem with heq | heq
        · cases heq
          exact ⟨rfl, rfl⟩
        · cases heq
    have hlist : ∀ listed, (⟨.server (.getJobs indexMethod sampleId), .ok listed⟩ : Event SampleI) ∈ head ↔
        listed = jobs := by
      intro listed
      refine ⟨fun hmem => ?_, fun heq => heq ▸ List.mem_cons_of_mem _ (List.mem_cons_of_mem _ List.mem_cons_self)⟩
      rcases List.mem_cons.1 hmem with heq | hmem
      · cases heq
      · rcases List.mem_pair.1 hmem with heq | heq
        · cases heq
        · cases heq
          rfl
    refine @Waited.indexed _ _ _ _ _ _ head hwaited (by simp [head, isPoll]) (le_refl 1) ?_ rfl
      ⟨sampleInfo, .added (List.mem_cons_of_mem _ List.mem_cons_self) rfl hinfo, hid⟩
      (fun _ => ⟨jobs, (hlist jobs).2 rfl⟩) fun jobId => ?_
    · exact fun upload a hmem => ⟨hpersist, (hupload upload a hmem).1, List.mem_cons_self⟩
    · refine hwaited.listed_iff rfl hlist fun upload added' hmem => ?_
      cases (hupload upload _ hmem).2
      exact hexisted
  | @uploaded added sampleInfo sampleId tr hpersist hexisted hinfo hid hwaited =>
    let head : List (Event SampleI) := [⟨.server (.getSampleBySha256 report.sha256), .ok none⟩,
      ⟨.server (.addReport ⟨report, labels.family, labels.version⟩), .ok added⟩]
    have hupload : ∀ upload a, (⟨.server (.addReport upload), a⟩ : Event SampleI) ∈ head ↔
        upload = ⟨report, labels.family, labels.version⟩ ∧ a = .ok added := by
      intro upload a
      constructor
      · intro hmem
        rcases List.mem_pair.1 hmem with heq | heq
        · cases heq
        · cases heq
          exact ⟨rfl, rfl⟩
      · rintro ⟨rfl, rfl⟩
        exact List.mem_cons_of_mem _ List.mem_cons_self
    have hlist : ∀ listed, (⟨.server (.getJobs indexMethod sampleId), .ok listed⟩ : Event SampleI) ∉ head := by
      intro listed hmem
      rcases List.mem_pair.1 hmem with heq | heq <;> cases heq
    refine @Waited.indexed _ _ _ _ _ _ head hwaited (by simp [head, isPoll]) (le_refl 1) ?_ rfl
      ⟨sampleInfo, .added (List.mem_cons_of_mem _ List.mem_cons_self) rfl hinfo, hid⟩ ?_ fun jobId => ?_
    · exact fun upload a hmem => ⟨hpersist, ((hupload upload a).1 hmem).1, List.mem_cons_self⟩
    · rintro (hfound | ⟨hadded, hyes⟩)
      · rcases List.mem_pair.1 hfound with heq | heq <;> cases heq
      · cases ((hupload _ _).1 hadded).2
        rw [hexisted] at hyes
        cases hyes
    · have hadded : ∀ upload added', (⟨.server (.addReport upload), .ok added'⟩ : Event SampleI) ∈ head ↔
          upload = ⟨report, labels.family, labels.version⟩ ∧ added' = added := by
        intro upload added'
        exact (hupload upload (Except.ok added')).trans (and_congr_right fun _ => ⟨Except.ok.inj, congrArg Except.ok⟩)
      exact hwaited.uploaded_iff rfl hlist hexisted hadded

/-- A sample that `ensure_sample` returned is indexed: the first pending job of its list, or the job that its
upload named, was awaited to its end, and no other. -/
theorem ensureSample_indexed {server : String} {report : SmdaReport} {labels : SampleLabels} {ref : SampleRef}
    (h : Completes (ensureSample rt fuel server report labels opts) tr (.returned ref)) :
    Indexed rt report labels tr ref :=
  (ensureSample_returned h).indexed

/-! ## Two jobs of one sample -/

def queuedJob (jobId : String) : Json :=
  .dict [("_id", .str jobId), ("payload", .dict [("method", .str indexMethod), ("params", .str "sample")])]

/-- A server on which the sample 7 has two queued indexing jobs. -/
def twoJobs : (o : SampleOp) → o.Ans
  | .server (.getSampleBySha256 _) => .ok (some (.dict [("sample_id", .int 7)]))
  | .server (.getJobs _ _) => .ok [queuedJob "a", queuedJob "b"]
  | o => jobAnswers finishedJob o

/-- Parameters that name the sample 7. -/
def sampleRuntime : Runtime := ⟨fun _ => some (.dict [("0", .int 7)]), fun _ => ""⟩

def twoJobsTrace : List (Event SampleI) :=
  [⟨.server (.getSampleBySha256 "aa"), .ok (some (.dict [("sample_id", .int 7)]))⟩,
    ⟨.server (.getJobs indexMethod 7), .ok [queuedJob "a", queuedJob "b"]⟩, ⟨.shouldStop, false⟩,
    ⟨.server (.getJobData "a"), .ok (some finishedJob)⟩, ⟨.server (.getResult "r"), .ok (.int 7)⟩]

theorem completes_twoJobsTrace : Completes (ensureSample sampleRuntime 1 "http://s/" emptyReport ⟨false, "", ""⟩)
    twoJobsTrace (.returned ⟨7, "aa", true⟩) :=
  completes_of_outcome twoJobs rfl rfl

theorem indexed_twoJobsTrace : Indexed sampleRuntime emptyReport ⟨false, "", ""⟩ twoJobsTrace ⟨7, "aa", true⟩ :=
  ensureSample_indexed completes_twoJobsTrace

/-- The second job is not awaited. -/
theorem not_completed_twoJobsTrace : ¬ ∀ (rt : Runtime) (fuel : ℕ) (server : String) (report : SmdaReport)
    (labels : SampleLabels) (opts : AwaitOptions) (tr : List (Event SampleI)) (ref : SampleRef),
    Completes (ensureSample rt fuel server report labels opts) tr (.returned ref) → ∀ jobs,
      ⟨.server (.getJobs indexMethod ref.sampleId), .ok jobs⟩ ∈ tr → ∀ job ∈ jobs, Pending rt ref.sampleId job →
        ∃ jobId, jobDocumentId rt job = some jobId ∧ Completed jobId tr := by
  intro h
  obtain ⟨jobId, hjobId, before, job, after, value, htr, -⟩ := h _ _ _ _ _ _ _ _ completes_twoJobsTrace _
    (List.mem_cons_of_mem _ List.mem_cons_self) (queuedJob "b") (by simp) (by decide +kernel)
  have hb : jobId = "b" := (Option.some.inj hjobId).symm
  subst hb
  have hmem : (⟨.server (.getJobData "b"), .ok (some job)⟩ : Event SampleI) ∈ twoJobsTrace := by
    rw [htr]
    exact List.mem_append_right _ List.mem_cons_self
  have hnames : ∀ e ∈ twoJobsTrace, isPoll e = false ∨ WaitsFor "a" e :=
    List.forall_mem_cons.2 ⟨Or.inl rfl, List.forall_mem_cons.2 ⟨Or.inl rfl, List.forall_mem_cons.2 ⟨Or.inl rfl,
      List.forall_mem_cons.2 ⟨Or.inr rfl, List.forall_mem_singleton.2 (Or.inl rfl)⟩⟩⟩⟩
  rcases hnames _ hmem with hpoll | hwaits
  · cases hpoll
  · exact absurd (show "b" = "a" from hwaits) (by decide)

end McritSimilarity

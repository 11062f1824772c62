import McritSimilarity.MalformedAnswers

/-!
# Malformed job and sample documents

`await_job`, `resolve_matches`, `pending_index_job` and `ensure_sample` over the client: which documents
let a built-in exception out, besides the answers that a method of the client faults at.
-/

set_option autoImplicit false

namespace McritSimilarity

open Python Prog

variable {rt : Runtime}

/-! ## Documents -/

/-- A progress that is no float. -/
def HugeProgress (job : Json) : Prop :=
  ∃ n : ℤ, field job "progress" = .int n ∧ 0 ≤ n ∧ (Json.int n).toFloat = .error .overflowError

/-- A sample id that is no integer, but infinite. -/
def InfiniteId (sampleInfo : Json) : Prop :=
  field sampleInfo "sample_id" = .float .posInf ∨ field sampleInfo "sample_id" = .float .negInf

theorem toFloat_int (n : ℤ) : (∃ x, (Json.int n).toFloat = .ok x) ∨ (Json.int n).toFloat = .error .overflowError := by
  simp only [Json.toFloat]
  cases roundDouble n with
  | finite q => exact Or.inl ⟨_, rfl⟩
  | _ => exact Or.inr rfl

theorem jobProgress_huge {job : Json} (h : HugeProgress job) :
    jobProgress job = .error (.builtin .overflowError) := by
  obtain ⟨n, hn, hpos, hfloat⟩ := h
  have hneg : ¬ (n : ℚ) < 0 := not_lt.2 (by exact_mod_cast hpos)
  unfold jobProgress
  rw [hn]
  simp only [progressOf, if_neg hneg, hfloat]
  split_ifs <;> rfl

theorem jobProgress_error {job : Json} (h : ¬ HugeProgress job) : ∃ fraction, jobProgress job = .ok fraction := by
  unfold jobProgress
  cases hprogress : field job "progress" with
  | bool b => cases b <;> exact ⟨_, rfl⟩
  | float x =>
    cases x with
    | finite q =>
      simp only [progressOf]
      split_ifs
      · exact ⟨_, rfl⟩
      · exact ⟨_, rfl⟩
      · exact ⟨_, rfl⟩
    | _ => exact ⟨_, rfl⟩
  | int n =>
    simp only [progressOf]
    split_ifs with hneg
    · exact ⟨_, rfl⟩
    all_goals
      rcases toFloat_int n with ⟨x, hx⟩ | hoverflow
      · rw [hx]
        exact ⟨_, rfl⟩
      · exact absurd ⟨n, hprogress, by exact_mod_cast not_lt.1 hneg, hoverflow⟩ h
  | _ => exact ⟨_, rfl⟩

theorem field_of_getItem {value v : Json} {key : String} (h : value.getItem key = .ok v) : field value key = v := by
  cases value with
  | dict members =>
    simp only [field, Json.get, Json.getItem] at h ⊢
    split at h
    · next w hw =>
      cases h
      rw [hw, Option.getD_some]
    · cases h
  | _ => cases h

theorem getItem_of_field {value : Json} {key : String} (h : (field value key).isNull = false) :
    value.getItem key = .ok (field value key) := by
  cases value with
  | dict members =>
    simp only [field, Json.get, Json.getItem] at h ⊢
    cases hfound : members.lookup key with
    | none =>
      rw [hfound] at h
      cases h
    | some v => rfl
  | _ => cases h

theorem sampleIdOf_infinite {info : Json} (h : InfiniteId info) :
    sampleIdOf info = .error (.builtin .overflowError) := by
  unfold sampleIdOf
  rcases h with h | h
  · rw [getItem_of_field (by rw [h]; rfl), h]
    rfl
  · rw [getItem_of_field (by rw [h]; rfl), h]
    rfl

theorem sampleIdOf_error {info : Json} (h : ¬ InfiniteId info) {e : PyError} (he : sampleIdOf info = .error e) :
    IsMcritError e := by
  unfold sampleIdOf at he
  cases hitem : info.getItem "sample_id" with
  | error b =>
    rw [hitem] at he
    cases info with
    | dict members =>
      simp only [Json.getItem] at hitem
      split at hitem
      · cases hitem
      · cases hitem
        cases he
        trivial
    | _ =>
      cases hitem
      cases he
      trivial
  | ok v =>
    have hfield := field_of_getItem hitem
    rw [hitem] at he
    dsimp only [Except.bind] at he
    cases v with
    | float x =>
      cases x with
      | posInf => exact absurd (Or.inl hfield) h
      | negInf => exact absurd (Or.inr hfield) h
      | nan => cases he; trivial
      | finite q => cases he
    | str s =>
      simp only [Json.toInt] at he
      cases hint : intOfText s with
      | none =>
        rw [hint] at he
        cases he
        trivial
      | some n =>
        rw [hint] at he
        cases he
    | null => cases he; trivial
    | list xs => cases he; trivial
    | dict members => cases he; trivial
    | _ => cases he

/-! ## Faults -/

/-- A document that a conversion fails at; `reports` tells whether progress is reported. -/
inductive DocumentFault (reports : Bool) : Event SampleI → Prop where
  | progress (jobId : String) (job : Json) (hreports : reports = true) (h : HugeProgress job) :
      DocumentFault reports ⟨.server (.getJobData jobId), .ok (some job)⟩
  | existing (sha256 : String) (sampleInfo : Json) (h : InfiniteId sampleInfo) :
      DocumentFault reports ⟨.server (.getSampleBySha256 sha256), .ok (some sampleInfo)⟩
  | added (upload : Upload) (data : Json) (h : InfiniteId (field data "sample_info")) :
      DocumentFault reports ⟨.server (.addReport upload), .ok data⟩

/-- An answer of the client that a program faults at. -/
inductive AnswerFault (reports : Bool) : Event SampleI → Prop where
  | foreign (o : ServerOp) (e : PyError) (he : IsForeign e) : AnswerFault reports ⟨.server o, .error e⟩
  | document (e : Event SampleI) (h : DocumentFault reports e) : AnswerFault reports e
  | noSampleInfo (upload : Upload) (data : Json) (b : BuiltinError) (h : data.getItem "sample_info" = .error b) :
      AnswerFault reports ⟨.server (.addReport upload), .ok data⟩

section FaultsAt

variable {reports : Bool} {α β : Type}

theorem request_faultsAt {o : ServerOp} {f : o.Result → SampleProg β}
    (hfault : ∀ a, AnswerFault reports ⟨.server o, .ok a⟩ → ∃ e, f a = Prog.raise e ∧ IsForeign e)
    (hf : ∀ a, ¬ AnswerFault reports ⟨.server o, .ok a⟩ → (f a).FaultsAt (AnswerFault reports) IsForeign) :
    (request o >>= f).FaultsAt (AnswerFault reports) IsForeign := by
  rintro (e | a)
  · refine ⟨fun h => ?_, fun h he => h (.foreign o e he)⟩
    cases h with
    | foreign _ _ he => exact ⟨e, rfl, he⟩
    | document _ h => cases h
  · exact ⟨hfault a, hf a⟩

/-- A request whose results are all taken. -/
theorem request_faultsAt' {o : ServerOp} {f : o.Result → SampleProg β}
    (ho : ∀ a, ¬ AnswerFault reports ⟨.server o, .ok a⟩)
    (hf : ∀ a, (f a).FaultsAt (AnswerFault reports) IsForeign) :
    (request o >>= f).FaultsAt (AnswerFault reports) IsForeign :=
  request_faultsAt (fun a h => absurd h (ho a)) fun a _ => hf a

theorem getJobs_taken (method : String) (sampleId : ℤ) (jobs : List Json) :
    ¬ AnswerFault reports ⟨.server (.getJobs method sampleId), .ok jobs⟩ := by
  rintro (_ | ⟨_, ⟨⟩⟩)

theorem getResult_taken (resultId : String) (data : Json) :
    ¬ AnswerFault reports ⟨.server (.getResult resultId), .ok data⟩ := by
  rintro (_ | ⟨_, ⟨⟩⟩)

theorem getResultForJob_taken (jobId : String) (data : Json) :
    ¬ AnswerFault reports ⟨.server (.getResultForJob jobId), .ok data⟩ := by
  rintro (_ | ⟨_, ⟨⟩⟩)

theorem isForeign_mcrit {kind : McritErrorKind} {message : String} : ¬ IsForeign (.mcrit kind message) :=
  fun h => h trivial

theorem sleep_faultsAt (seconds : ℚ) : (sleep seconds).FaultsAt (AnswerFault reports) IsForeign := by
  refine faultsAt_op (I := SampleI) fun a h => ?_
  rcases h with _ | ⟨_, ⟨⟩⟩

theorem polledStop_faultsAt (stops : Bool) : (polledStop stops).FaultsAt (AnswerFault reports) IsForeign := by
  unfold polledStop
  refine faultsAt_ite (faultsAt_op (I := SampleI) fun a h => ?_) trivial
  rcases h with _ | ⟨_, ⟨⟩⟩

theorem writtenResult_faultsAt (jobId resultId : String) :
    (writtenResult jobId resultId).FaultsAt (AnswerFault reports) IsForeign := by
  refine request_faultsAt' (getResult_taken resultId) fun result => .bind (faultsAt_ite ?_ trivial) fun result =>
    .bind (faultsAt_raiseIf isForeign_mcrit) fun _ => trivial
  rw [← bind_ret (request _)]
  exact request_faultsAt' (getResultForJob_taken jobId) fun _ => trivial

theorem finishedRound_faultsAt (jobId : String) (opts : AwaitOptions) (st : AwaitState) (job : Json) :
    (finishedRound rt jobId opts st job).FaultsAt (AnswerFault reports) IsForeign := by
  unfold finishedRound
  refine faultsAt_ite (request_faultsAt' (getResultForJob_taken jobId) fun viaJob => ?_) ?_
  · exact faultsAt_ite trivial (.bind (faultsAt_raiseIf isForeign_mcrit) fun _ =>
      .bind (sleep_faultsAt _) fun _ => trivial)
  · exact .bind (writtenResult_faultsAt _ _) fun _ => trivial

/-- A job document faults at a progress that is reported and no float. -/
theorem presentRound_faultsAt (jobId : String) (opts : AwaitOptions) (st : AwaitState) (job : Json) :
    (opts.reports = true → HugeProgress job →
      ∃ e, presentRound rt jobId opts st job = Prog.raise e ∧ IsForeign e) ∧
    (¬ (opts.reports = true ∧ HugeProgress job) →
      (presentRound rt jobId opts st job).FaultsAt (AnswerFault opts.reports) IsForeign) := by
  constructor
  · intro hreports hhuge
    refine ⟨.builtin .overflowError, ?_, id⟩
    unfold presentRound reportProgress
    rw [if_pos hreports, jobProgress_huge hhuge]
    rfl
  · intro hfine
    refine .bind ?_ fun _ => .bind (faultsAt_raiseIf isForeign_mcrit) fun _ =>
      .bind (faultsAt_raiseIf isForeign_mcrit) fun _ => faultsAt_ite (finishedRound_faultsAt _ _ _ _)
        (.bind (sleep_faultsAt _) fun _ => trivial)
    unfold reportProgress
    split_ifs with hreports
    · obtain ⟨fraction, hfraction⟩ := jobProgress_error fun hhuge => hfine ⟨hreports, hhuge⟩
      rw [hfraction]
      cases fraction with
      | none => trivial
      | some fraction =>
        refine faultsAt_op (I := SampleI) fun a h => ?_
        rcases h with _ | ⟨_, ⟨⟩⟩
    · trivial

theorem awaitRound_faultsAt (jobId : String) (opts : AwaitOptions) (st : AwaitState) :
    (awaitRound rt jobId opts st).FaultsAt (AnswerFault opts.reports) IsForeign := by
  refine .bind (polledStop_faultsAt _) fun stop => .bind (faultsAt_raiseIf isForeign_mcrit) fun _ =>
    request_faultsAt (fun document h => ?_) fun document h => ?_
  · rcases h with _ | ⟨_, ⟨_, job, hreports, hhuge⟩⟩
    exact (presentRound_faultsAt jobId opts st job).1 hreports hhuge
  · cases document with
    | none =>
      exact .bind (faultsAt_raiseIf isForeign_mcrit) fun _ => .bind (sleep_faultsAt _) fun _ => trivial
    | some job =>
      refine (presentRound_faultsAt jobId opts st job).2 fun ⟨hreports, hhuge⟩ => h ?_
      exact .document _ (.progress jobId job hreports hhuge)

theorem awaitJob_faultsAt (fuel : ℕ) (jobId : String) (opts : AwaitOptions) :
    (awaitJob rt fuel jobId opts).FaultsAt (AnswerFault opts.reports) IsForeign := by
  unfold awaitJob
  generalize { delay := opts.sleepS : AwaitState } = st
  induction fuel generalizing st with
  | zero => trivial
  | succ fuel ih =>
    refine .bind (awaitRound_faultsAt _ _ _) fun round => ?_
    cases round with
    | inl result => trivial
    | inr next => exact ih next

theorem resolveMatches_faultsAt (fuel : ℕ) (payload : Json) (opts : AwaitOptions) :
    (resolveMatches rt fuel payload opts).FaultsAt (AnswerFault opts.reports) IsForeign := by
  unfold resolveMatches
  refine faultsAt_ite trivial ?_
  split
  · exact isForeign_mcrit
  · exact .bind (awaitJob_faultsAt _ _ _) fun result => faultsAt_ite trivial isForeign_mcrit

theorem pendingIndexJob_faultsAt (sampleId : ℤ) :
    (pendingIndexJob rt sampleId).FaultsAt (AnswerFault reports) IsForeign :=
  request_faultsAt' (getJobs_taken _ _) fun _ => trivial

theorem awaitIndexing_faultsAt (fuel : ℕ) (jobId : Option String) (opts : AwaitOptions) :
    (awaitIndexing rt fuel jobId opts).FaultsAt (AnswerFault opts.reports) IsForeign := by
  cases jobId with
  | none => trivial
  | some jobId => exact .bind (awaitJob_faultsAt _ _ _) fun _ => trivial

theorem sampleIdOf_faultsAt {info : Json} (h : ¬ InfiniteId info) :
    (Prog.ofExcept (sampleIdOf info) : SampleProg ℤ).FaultsAt (AnswerFault reports) IsForeign := by
  cases hid : sampleIdOf info with
  | ok n => trivial
  | error e => exact fun he => he (sampleIdOf_error h hid)

theorem existingSample_faultsAt (fuel : ℕ) {info : Json} (sha256 : String) (opts : AwaitOptions)
    (h : ¬ InfiniteId info) :
    (existingSample rt fuel info sha256 opts).FaultsAt (AnswerFault opts.reports) IsForeign := by
  refine .bind (sampleIdOf_faultsAt h) fun sampleId => .bind (pendingIndexJob_faultsAt _) fun jobId =>
    .bind (awaitIndexing_faultsAt _ _ _) fun _ => trivial

theorem newSample_faultsAt (fuel : ℕ) {info : Json} (jobId : Json) (sha256 : String) (opts : AwaitOptions)
    (h : ¬ InfiniteId info) :
    (newSample rt fuel info jobId sha256 opts).FaultsAt (AnswerFault opts.reports) IsForeign :=
  .bind (sampleIdOf_faultsAt h) fun _ => .bind (awaitIndexing_faultsAt _ _ _) fun _ => trivial

theorem existingSample_infinite (fuel : ℕ) {info : Json} (sha256 : String) (opts : AwaitOptions)
    (h : InfiniteId info) : existingSample rt fuel info sha256 opts = Prog.raise (.builtin .overflowError) := by
  unfold existingSample
  rw [sampleIdOf_infinite h]
  rfl

theorem uploadSample_faultsAt (fuel : ℕ) (report : SmdaReport) (labels : SampleLabels) (opts : AwaitOptions) :
    (uploadSample rt fuel report labels opts).FaultsAt (AnswerFault opts.reports) IsForeign := by
  refine request_faultsAt (fun data h => ?_) fun data h => ?_
  · rcases h with _ | ⟨_, h⟩ | ⟨_, _, b, hitem⟩
    · cases h with
      | added _ _ hinfinite =>
        refine ⟨.builtin .overflowError, ?_, id⟩
        have hitem : data.getItem "sample_info" = .ok (field data "sample_info") := by
          refine getItem_of_field ?_
          cases hinfo : field data "sample_info" with
          | null =>
            rw [hinfo] at hinfinite
            rcases hinfinite with h | h <;> cases h
          | _ => rfl
        rw [hitem]
        show (if _ then existingSample _ _ _ _ _ else newSample _ _ _ _ _ _) = _
        split_ifs
        · exact existingSample_infinite _ _ _ hinfinite
        · unfold newSample
          rw [sampleIdOf_infinite hinfinite]
          rfl
    · exact ⟨.builtin b, by rw [hitem]; rfl, id⟩
  · cases hitem : data.getItem "sample_info" with
    | error b => exact absurd (.noSampleInfo _ _ b hitem) h
    | ok info =>
      have hfine : ¬ InfiniteId info := by
        rw [← field_of_getItem hitem]
        exact fun hinfinite => h (.document _ (.added _ _ hinfinite))
      exact faultsAt_ite (existingSample_faultsAt _ _ _ hfine) (newSample_faultsAt _ _ _ _ hfine)

theorem ensureSample_faultsAt (fuel : ℕ) (server : String) (report : SmdaReport) (labels : SampleLabels)
    (opts : AwaitOptions) :
    (ensureSample rt fuel server report labels opts).FaultsAt (AnswerFault opts.reports) IsForeign := by
  refine .bind (faultsAt_raiseIf isForeign_mcrit) fun _ => request_faultsAt (fun document h => ?_) fun document h => ?_
  · cases h with
    | document _ h =>
      cases h with
      | existing _ sampleInfo hinfinite =>
        exact ⟨.builtin .overflowError, existingSample_infinite _ _ _ hinfinite, id⟩
  · cases document with
    | none => exact .bind (faultsAt_raiseIf isForeign_mcrit) fun _ => uploadSample_faultsAt _ _ _ _
    | some sampleInfo =>
      exact existingSample_faultsAt _ _ _ fun hinfinite => h (.document _ (.existing _ _ hinfinite))

end FaultsAt

/-! ## Over the client -/

/-- An operation with its answer and the HTTP exchange behind it. -/
structure ServedCall where
  op : SampleOp
  answer : op.Ans
  exchange : List (Event HttpI)

/-- The client has answered a request over HTTP; the other operations are the caller's. -/
inductive Served (rt : Runtime) (c : CheckedClient) : ServedCall → Prop where
  | returned {o : ServerOp} {a : o.Result} {tr : List (Event HttpI)}
      (h : Exec (methodOverHttp rt c.client (clientMethod o)) tr (.returned a)) : Served rt c ⟨.server o, .ok a, tr⟩
  | raised {o : ServerOp} {e : PyError} {tr : List (Event HttpI)}
      (h : Exec (methodOverHttp rt c.client (clientMethod o)) tr (.raised e)) :
      Served rt c ⟨.server o, .error e, tr⟩
  | shouldStop (stop : Bool) : Served rt c ⟨.shouldStop, stop, []⟩
  | onProgress (fraction : PyFloat) : Served rt c ⟨.onProgress fraction, (), []⟩
  | sleep (seconds : ℚ) : Served rt c ⟨.sleep seconds, (), []⟩

/-- An execution of a program with a client. -/
structure ServedRun {α : Type} (rt : Runtime) (c : CheckedClient) (p : SampleProg α) (calls : List ServedCall)
    (out : Outcome PyError α) : Prop where
  exec : Exec (I := SampleI) p (calls.map fun s => ⟨s.op, s.answer⟩) out
  served : ∀ s ∈ calls, Served rt c s

/-- A call of a program is answered in a way that a built-in exception follows. -/
def ServedFault (reports : Bool) (s : ServedCall) : Prop :=
  (∃ e ∈ s.exchange, StatusFault e) ∨ DocumentFault reports ⟨s.op, s.answer⟩

theorem clientMethod_faultsAt (rt : Runtime) (c : CheckedClient) (o : ServerOp) :
    (methodOverHttp rt c.client (clientMethod o)).FaultsAt StatusFault IsForeign := by
  cases o with
  | getJobs method sampleId => exact methodOverHttp_faultsAt rt c (.getJobs method sampleId)
  | getSampleBySha256 sha256 => exact methodOverHttp_faultsAt rt c (.getSampleBySha256 sha256)
  | addReport upload => exact methodOverHttp_faultsAt rt c (.addReport upload)
  | getJobData jobId => exact methodOverHttp_faultsAt rt c (.getJobData jobId)
  | getResult resultId => exact methodOverHttp_faultsAt rt c (.getResult resultId false)
  | getResultForJob jobId => exact methodOverHttp_faultsAt rt c (.getResultForJob jobId false)
  | requestMatchesForSampleVs sampleId other params =>
    exact methodOverHttp_faultsAt rt c (.requestMatchesForSampleVs sampleId other _ _ _ false)
  | requestMatchesForSample sampleId params force =>
    exact methodOverHttp_faultsAt rt c (.requestMatchesForSample sampleId _ _ _ force)
  | getFunctionsByIds ids => exact methodOverHttp_faultsAt rt c (.getFunctionsByIds ids)

/-- An uploaded report is answered with `sample_info`. -/
theorem addReport_returns (c : CheckedClient) (upload : Upload) :
    (methodOverHttp rt c.client (McritClient.addReport upload)).Returns fun data =>
      ∃ info, data.getItem "sample_info" = .ok info := by
  have hreturns : (McritClient.addReport upload).Returns fun data =>
      ∃ info, data.getItem "sample_info" = .ok info := by
    refine fetch_returns fun data => ?_
    split_ifs with h
    · cases data with
      | dict members =>
        obtain ⟨v, hv⟩ := Option.isSome_iff_exists.1 h.2
        exact ⟨v, by simp only [Json.getItem, hv]⟩
      | _ => cases h.1
    · trivial
  exact hreturns.inline (J := HttpI) fun r => (sendRequest rt c.client r).asExcept

/-- What a program faults at, behind a client. -/
theorem Served.answerFault_iff {c : CheckedClient} {reports : Bool} {s : ServedCall} (hs : Served rt c s) :
    AnswerFault reports ⟨s.op, s.answer⟩ ↔ ServedFault reports s := by
  cases hs with
  | @returned o a tr h =>
    have hstatus : ¬ ∃ e ∈ tr, StatusFault e := by
      rw [(clientMethod_faultsAt rt c o).exec_iff h nofun]
      exact fun ⟨e, he, _⟩ => nomatch he
    constructor
    · intro hfault
      cases hfault with
      | document _ h => exact Or.inr h
      | noSampleInfo upload data b hitem =>
        obtain ⟨info, hinfo⟩ := (addReport_returns c upload).exec h
        rw [hitem] at hinfo
        cases hinfo
    · rintro (hfault | hfault)
      · exact absurd hfault hstatus
      · exact .document _ hfault
  | @raised o e tr h =>
    have hstatus := (clientMethod_faultsAt rt c o).exec_iff h nofun
    constructor
    · intro hfault
      cases hfault with
      | foreign _ _ he => exact Or.inl (hstatus.2 ⟨e, rfl, he⟩)
      | document _ h => cases h
    · rintro (hfault | hfault)
      · obtain ⟨e', heq, he⟩ := hstatus.1 hfault
        cases heq
        exact .foreign _ _ he
      · cases hfault
  | shouldStop stop =>
    refine ⟨fun h => ?_, fun h => ?_⟩
    · rcases h with _ | ⟨_, ⟨⟩⟩
    · rcases h with ⟨e, he, -⟩ | h
      · cases he
      · cases h
  | onProgress fraction =>
    refine ⟨fun h => ?_, fun h => ?_⟩
    · rcases h with _ | ⟨_, ⟨⟩⟩
    · rcases h with ⟨e, he, -⟩ | h
      · cases he
      · cases h
  | sleep seconds =>
    refine ⟨fun h => ?_, fun h => ?_⟩
    · rcases h with _ | ⟨_, ⟨⟩⟩
    · rcases h with ⟨e, he, -⟩ | h
      · cases he
      · cases h

/-- A program that faults at the answers above ends well if and only if none of its calls is a fault. -/
theorem ServedRun.endsWell_iff {α : Type} {c : CheckedClient} {p : SampleProg α} {reports : Bool}
    {Shape : α → Prop} (hfaults : p.FaultsAt (AnswerFault reports) IsForeign) (hshape : p.Returns Shape)
    {calls : List ServedCall} {out : Outcome PyError α} (h : ServedRun rt c p calls out) (hend : out ≠ .pending) :
    EndsWell Shape out ↔ ∀ s ∈ calls, ¬ ServedFault reports s := by
  have hreturned : ∀ a, out = .returned a → Shape a := by
    rintro a rfl
    exact hshape.exec h.exec
  rw [McritSimilarity.endsWell_iff, ← hfaults.exec_iff h.exec hend, and_iff_left hreturned]
  constructor
  · intro hnone s hs hfault
    exact hnone ⟨_, List.mem_map_of_mem hs, (h.served s hs).answerFault_iff.2 hfault⟩
  · rintro hall ⟨e, he, hfault⟩
    obtain ⟨s, hs, rfl⟩ := List.mem_map.1 he
    exact hall s hs ((h.served s hs).answerFault_iff.1 hfault)

/-! ## All answers -/

/-- Exactly under the conditions, a call of the client, `await_job`, `resolve_matches`, `pending_index_job`
and `ensure_sample` end in a value of their shape or in an error of the plugin. -/
structure HandlesAnswers (rt : Runtime) (c : CheckedClient)
    (MethodCond : ClientCall → List (Event HttpI) → Prop) (Cond : Bool → List ServedCall → Prop) : Prop where
  method : ∀ (call : ClientCall) tr (out : Outcome PyError call.Result),
    Exec (methodOverHttp rt c.client (call.method rt)) tr out → out ≠ .pending →
      (EndsWell call.Shape out ↔ MethodCond call tr)
  awaitJob : ∀ fuel jobId opts calls out, ServedRun rt c (awaitJob rt fuel jobId opts) calls out →
    out ≠ .pending → (EndsWell (fun _ => True) out ↔ Cond opts.reports calls)
  resolveMatches : ∀ fuel payload opts calls out, ServedRun rt c (resolveMatches rt fuel payload opts) calls out →
    out ≠ .pending → (EndsWell (fun result => isMatchResult result = true) out ↔ Cond opts.reports calls)
  pendingIndexJob : ∀ sampleId calls out, ServedRun rt c (pendingIndexJob rt sampleId) calls out →
    out ≠ .pending → (EndsWell (fun _ => True) out ↔ Cond false calls)
  ensureSample : ∀ fuel report labels opts calls out,
    ServedRun rt c (ensureSample rt fuel c.client.mcritServer report labels opts) calls out →
      out ≠ .pending → (EndsWell (fun _ => True) out ↔ Cond opts.reports calls)

theorem resolveMatches_returns (fuel : ℕ) (payload : Json) (opts : AwaitOptions) :
    (resolveMatches rt fuel payload opts).Returns fun result => isMatchResult result = true := by
  unfold McritSimilarity.resolveMatches
  split_ifs with hresult
  · exact hresult
  · split
    · trivial
    · refine (returns_true _).bind fun result _ => ?_
      split_ifs with hresult
      · exact hresult
      · trivial

/-- The answers that a call handles are all but the faults. -/
theorem handlesAnswers_iff (rt : Runtime) (c : CheckedClient) :
    HandlesAnswers rt c (ClientCall.Answerable rt) fun reports calls => ∀ s ∈ calls, ¬ ServedFault reports s where
  method call _ _ h hend := method_endsWell_iff rt c call h hend
  awaitJob _ _ _ _ _ h hend := h.endsWell_iff (awaitJob_faultsAt _ _ _) (returns_true _) hend
  resolveMatches _ _ _ _ _ h hend := h.endsWell_iff (resolveMatches_faultsAt _ _ _) (resolveMatches_returns _ _ _) hend
  pendingIndexJob _ _ _ h hend := h.endsWell_iff (pendingIndexJob_faultsAt _) (returns_true _) hend
  ensureSample _ _ _ _ _ _ h hend := h.endsWell_iff (ensureSample_faultsAt _ _ _ _ _) (returns_true _) hend

/-! ## A status that is a list -/

def plainRuntime : Runtime := ⟨fun _ => none, fun _ => ""⟩

/-- A client of the remote server, without a token. -/
def remoteClient : McritClient := ⟨remoteServer, none, none, none⟩

theorem newClient_remoteClient : newClient remoteServer none none none = .ok remoteClient := by rfl

def checkedRemote : CheckedClient := ⟨remoteClient, remoteServer, none, none, none, newClient_remoteClient⟩

def listStatus : Response := ⟨200, some (.dict [("status", .list [])]), ""⟩

theorem not_handlesAnswers : ¬ HandlesAnswers plainRuntime checkedRemote (fun _ _ => True) fun _ _ => True := by
  intro h
  have hurl : remoteClient.url "version" = .ok "https://mcrit.example/version" := by decide
  have hexec : Exec (methodOverHttp plainRuntime remoteClient (ClientCall.getVersion.method plainRuntime))
      [⟨.send ⟨"GET", "https://mcrit.example/version", [], none, false, .none⟩, .ok listStatus⟩]
      (.raised (.builtin .typeError)) := by
    show Exec ((attemptLoop plainRuntime remoteClient ⟨"GET", "version", true, .none⟩ 2 1).asExcept.bind _) _ _
    unfold attemptLoop attemptOnce
    rw [hurl]
    exact .call _ (.raise _)
  exact (h.method .getVersion _ _ hexec nofun).2 trivial

end McritSimilarity

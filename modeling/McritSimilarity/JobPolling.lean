import McritSimilarity.Lib.Completes
import McritSimilarity.MalformedDocuments

/-!
# Polling a job

What a round of `await_job` can do (`RoundRun`) and what its loop can do (`LoopRun`), as complete executions
against any answers.  The number of polls is bounded in `LoopRun.polls_le`: each poll uses up an unfinished
document, an unwritten result, or one of the missing answers that are allowed in a row.
-/

set_option autoImplicit false

namespace McritSimilarity

open Python Prog

variable {rt : Runtime} {jobId : String} {opts : AwaitOptions}

/-! ## Events -/

def isPoll : Event SampleI → Bool
  | ⟨.server (.getJobData _), _⟩ => true
  | _ => false

/-- A document of a job that is neither terminated, failed nor finished. -/
def isUnfinished (job : Json) : Bool := !jobTerminated job && !jobFailed job && !jobFinished job

def isUnfinishedPoll : Event SampleI → Bool
  | ⟨.server (.getJobData _), .ok (some job)⟩ => isUnfinished job
  | _ => false

def polls (tr : List (Event SampleI)) : ℕ := tr.countP isPoll

def unfinishedPolls (tr : List (Event SampleI)) : ℕ := tr.countP isUnfinishedPoll

/-- What a round may call between its poll and its end. -/
def AfterPoll : Event SampleI → Prop
  | ⟨.onProgress _, _⟩ => True
  | ⟨.server (.getResult _), _⟩ => True
  | ⟨.server (.getResultForJob _), _⟩ => True
  | _ => False

/-- The progress that is reported. -/
inductive Reported : List (Event SampleI) → Prop where
  | silent : Reported []
  | progress (fraction : PyFloat) : Reported [⟨.onProgress fraction, ()⟩]

/-- The value was answered by one of the endpoints of results. -/
def Fetched (jobId : String) (tr : List (Event SampleI)) (value : Json) : Prop :=
  (∃ resultId, (⟨.server (.getResult resultId), .ok value⟩ : Event SampleI) ∈ tr) ∨
    (⟨.server (.getResultForJob jobId), .ok value⟩ : Event SampleI) ∈ tr

/-- An error of the job, or one that the client raised. -/
def Raises (tr : List (Event SampleI)) (e : PyError) : Prop :=
  (∃ message, e = jobError message) ∨ ∃ o, (⟨.server o, .error e⟩ : Event SampleI) ∈ tr

/-! ## Rounds -/

/-- A round that is the last one, after the poll of a document. -/
def EndsRound (jobId : String) (job : Json) (rest : List (Event SampleI)) : Outcome PyError Round → Prop
  | .raised e => Raises rest e
  | .returned (.inl value) => value.isNull = false ∧ jobFinished job = true ∧ jobTerminated job = false ∧
      jobFailed job = false ∧ Fetched jobId rest value
  | _ => False

/-- A round from the answer to its poll on. -/
inductive PollRun (jobId : String) (opts : AwaitOptions) (st : AwaitState) :
    Except PyError (Option Json) → List (Event SampleI) → Outcome PyError Round → Prop where
  | failed (e : PyError) : PollRun jobId opts st (.error e) [] (.raised e)
  | lost (message : String) : PollRun jobId opts st (.ok none) [] (.raised (jobError message))
  | missing (h : st.missingCount + 1 < opts.maxConsecutiveMissing) :
      PollRun jobId opts st (.ok none) [⟨.sleep opts.sleepS, ()⟩]
        (.returned (.inr { st with missingCount := st.missingCount + 1 }))
  | huge (job : Json) (hreports : opts.reports = true) (h : HugeProgress job) :
      PollRun jobId opts st (.ok (some job)) [] (.raised (.builtin .overflowError))
  | ended {job : Json} {rest : List (Event SampleI)} {out : Outcome PyError Round}
      (hfine : ¬ (opts.reports = true ∧ HugeProgress job)) (hrest : ∀ e ∈ rest, AfterPoll e)
      (h : EndsRound jobId job rest out) : PollRun jobId opts st (.ok (some job)) rest out
  | unwritten {job : Json} {reported : List (Event SampleI)}
      (hfine : ¬ (opts.reports = true ∧ HugeProgress job)) (hreported : Reported reported)
      (hfinished : jobFinished job = true) (h : st.unwrittenResults + 1 < opts.maxConsecutiveMissing) :
      PollRun jobId opts st (.ok (some job))
        (reported ++ [⟨.server (.getResultForJob jobId), .ok .null⟩, ⟨.sleep opts.sleepS, ()⟩])
        (.returned (.inr { st with missingCount := 0, unwrittenResults := st.unwrittenResults + 1 }))
  | unfinished {job : Json} {reported : List (Event SampleI)}
      (hfine : ¬ (opts.reports = true ∧ HugeProgress job)) (hreported : Reported reported)
      (h : isUnfinished job = true) :
      PollRun jobId opts st (.ok (some job)) (reported ++ [⟨.sleep st.delay, ()⟩])
        (.returned (.inr { st with missingCount := 0, delay := min opts.maxSleepS (st.delay * 2) }))

inductive RoundRun (jobId : String) (opts : AwaitOptions) (st : AwaitState) :
    List (Event SampleI) → Outcome PyError Round → Prop where
  | stopped : RoundRun jobId opts st [⟨.shouldStop, true⟩] (.raised (jobError "MCRIT job cancelled"))
  | polled {asked rest : List (Event SampleI)} {answer : Except PyError (Option Json)}
      {out : Outcome PyError Round} (hasked : asked = [] ∨ asked = [⟨.shouldStop, false⟩])
      (h : PollRun jobId opts st answer rest out) :
      RoundRun jobId opts st (asked ++ ⟨.server (.getJobData jobId), answer⟩ :: rest) out

theorem request_bind_cases {α : Type} {o : ServerOp} {f : o.Result → SampleProg α} {tr : List (Event SampleI)}
    {out : Outcome PyError α} (h : Completes (request o >>= f) tr out) :
    (∃ e, tr = [⟨.server o, .error e⟩] ∧ out = .raised e) ∨
      ∃ a tr', tr = ⟨.server o, .ok a⟩ :: tr' ∧ Completes (f a) tr' out := by
  obtain ⟨a, tr', rfl, hrest⟩ := Completes.call_cases h
  cases a with
  | error e =>
    obtain ⟨rfl, rfl⟩ := Completes.raise_cases hrest
    exact Or.inl ⟨e, rfl, rfl⟩
  | ok a => exact Or.inr ⟨a, tr', rfl, hrest⟩

theorem sleep_bind_cases {α : Type} {seconds : ℚ} {f : Unit → SampleProg α} {tr : List (Event SampleI)}
    {out : Outcome PyError α} (h : Completes (sleep seconds >>= f) tr out) :
    ∃ tr', tr = ⟨.sleep seconds, ()⟩ :: tr' ∧ Completes (f ()) tr' out := by
  obtain ⟨a, tr', rfl, hrest⟩ := Completes.call_cases h
  exact ⟨tr', rfl, hrest⟩

section Rounds

variable {st : AwaitState} {tr : List (Event SampleI)} {out : Outcome PyError Round} {job : Json}

theorem missingRound_cases (h : Completes (missingRound jobId opts st) tr out) :
    PollRun jobId opts st (.ok none) tr out := by
  rcases Completes.raiseIf_bind_cases h with ⟨-, rfl, rfl⟩ | ⟨hmissing, hrest⟩
  · exact .lost _
  · obtain ⟨tr', rfl, hret⟩ := sleep_bind_cases hrest
    obtain ⟨rfl, rfl⟩ := hret.ret_cases
    exact .missing (not_le.1 hmissing)

/-- The result a finished job names: the value, or an error. -/
theorem writtenResult_cases {resultId : String} {out : Outcome PyError Json}
    (h : Completes (writtenResult jobId resultId) tr out) : (∀ e ∈ tr, AfterPoll e) ∧
      ((∃ e, out = .raised e ∧ Raises tr e) ∨
        ∃ value, out = .returned value ∧ value.isNull = false ∧ Fetched jobId tr value) := by
  rcases request_bind_cases h with ⟨e, rfl, rfl⟩ | ⟨result, tr', rfl, hrest⟩
  · exact ⟨by simp [AfterPoll], Or.inl ⟨e, rfl, Or.inr ⟨_, List.mem_singleton_self _⟩⟩⟩
  · have hchecked : ∀ {tr : List (Event SampleI)} {value : Json}, Completes (do
        Prog.raiseIf value.isNull
          (jobError ("MCRIT job " ++ jobId ++ " result " ++ resultId ++ " was missing"))
        return value) tr out → tr = [] ∧
          ((∃ message, out = .raised (jobError message)) ∨ out = .returned value ∧ value.isNull = false) := by
      intro tr value hvalue
      rcases Completes.raiseIf_bind_cases hvalue with ⟨-, rfl, rfl⟩ | ⟨hwritten, hret⟩
      · exact ⟨rfl, Or.inl ⟨_, rfl⟩⟩
      · obtain ⟨rfl, rfl⟩ := hret.ret_cases
        exact ⟨rfl, Or.inr ⟨rfl, by simpa using hwritten⟩⟩
    unfold jobResultIfNull at hrest
    split at hrest
    · rcases request_bind_cases hrest with ⟨e, rfl, rfl⟩ | ⟨value, tr'', rfl, hvalue⟩
      · exact ⟨by simp [AfterPoll], Or.inl ⟨e, rfl, Or.inr ⟨_, List.mem_cons_of_mem _ (List.mem_singleton_self _)⟩⟩⟩
      · obtain ⟨rfl, ⟨message, rfl⟩ | ⟨rfl, hnull⟩⟩ := hchecked hvalue
        · exact ⟨by simp [AfterPoll], Or.inl ⟨_, rfl, Or.inl ⟨message, rfl⟩⟩⟩
        · exact ⟨by simp [AfterPoll], Or.inr ⟨value, rfl, hnull, Or.inr (by simp)⟩⟩
    · obtain ⟨rfl, ⟨message, rfl⟩ | ⟨rfl, hnull⟩⟩ := hchecked hrest
      · exact ⟨by simp [AfterPoll], Or.inl ⟨_, rfl, Or.inl ⟨message, rfl⟩⟩⟩
      · exact ⟨by simp [AfterPoll], Or.inr ⟨result, rfl, hnull, Or.inl ⟨resultId, by simp⟩⟩⟩

theorem reportProgress_bind_cases {f : Unit → SampleProg Round}
    (h : Completes (reportProgress opts job >>= f) tr out) :
    ((opts.reports = true ∧ HugeProgress job) ∧ tr = [] ∧ out = .raised (.builtin .overflowError)) ∨
      (¬ (opts.reports = true ∧ HugeProgress job) ∧
        ∃ reported tr', tr = reported ++ tr' ∧ Reported reported ∧ Completes (f ()) tr' out) := by
  unfold reportProgress at h
  by_cases hreports : opts.reports = true
  · rw [if_pos hreports] at h
    by_cases hhuge : HugeProgress job
    · rw [jobProgress_huge hhuge] at h
      exact Or.inl ⟨⟨hreports, hhuge⟩, h.raise_cases⟩
    · refine Or.inr ⟨fun hboth => hhuge hboth.2, ?_⟩
      obtain ⟨fraction, hfraction⟩ := jobProgress_error hhuge
      rw [hfraction] at h
      cases fraction with
      | none => exact ⟨[], tr, rfl, .silent, h⟩
      | some fraction =>
        obtain ⟨a, tr', rfl, hrest⟩ := Completes.call_cases h
        exact ⟨_, tr', rfl, .progress fraction, hrest⟩
  · rw [if_neg hreports] at h
    exact Or.inr ⟨fun hboth => hreports hboth.1, [], tr, rfl, .silent, h⟩

theorem Reported.afterPoll {reported : List (Event SampleI)} (h : Reported reported) : ∀ e ∈ reported, AfterPoll e := by
  cases h <;> simp [AfterPoll]

theorem EndsRound.append {rest : List (Event SampleI)} (before : List (Event SampleI))
    (h : EndsRound jobId job rest out) : EndsRound jobId job (before ++ rest) out := by
  cases out with
  | raised e =>
    rcases h with h | ⟨o, h⟩
    · exact Or.inl h
    · exact Or.inr ⟨o, List.mem_append_right _ h⟩
  | returned r =>
    cases r with
    | inl value =>
      obtain ⟨hnull, hfinished, hterminated, hfailed, ⟨resultId, h⟩ | h⟩ := h
      · exact ⟨hnull, hfinished, hterminated, hfailed, Or.inl ⟨resultId, List.mem_append_right _ h⟩⟩
      · exact ⟨hnull, hfinished, hterminated, hfailed, Or.inr (List.mem_append_right _ h)⟩
    | inr next => exact h
  | pending => exact h

section Present

variable (hfine : ¬ (opts.reports = true ∧ HugeProgress job)) {reported : List (Event SampleI)}
  (hreported : Reported reported)

include hfine hreported

/-- A round that ends after what it reported. -/
theorem PollRun.endedAfter {rest : List (Event SampleI)} (hrest : ∀ e ∈ rest, AfterPoll e)
    (h : EndsRound jobId job rest out) : PollRun jobId opts st (.ok (some job)) (reported ++ rest) out := by
  refine .ended hfine (fun e he => ?_) (h.append reported)
  rcases List.mem_append.1 he with he | he
  · exact hreported.afterPoll e he
  · exact hrest e he

theorem finishedRound_cases (hfinished : jobFinished job = true) (hterminated : jobTerminated job = false)
    (hfailed : jobFailed job = false)
    (h : Completes (finishedRound rt jobId opts { st with missingCount := 0 } job) tr out) :
    PollRun jobId opts st (.ok (some job)) (reported ++ tr) out := by
  unfold finishedRound at h
  split at h
  · rcases request_bind_cases h with ⟨e, rfl, rfl⟩ | ⟨viaJob, tr', rfl, hrest⟩
    · exact .endedAfter hfine hreported (by simp [AfterPoll]) (Or.inr ⟨_, List.mem_singleton_self _⟩)
    · unfold unwrittenRound at hrest
      cases hnull : viaJob.isNull with
      | false =>
        rw [if_pos (by simp [hnull])] at hrest
        obtain ⟨rfl, rfl⟩ := hrest.ret_cases
        exact .endedAfter hfine hreported (by simp [AfterPoll])
          ⟨hnull, hfinished, hterminated, hfailed, Or.inr (List.mem_singleton_self _)⟩
      | true =>
        have hviaJob : viaJob = .null := by
          cases viaJob <;> first | rfl | cases hnull
        subst hviaJob
        rw [if_neg (by simp [hnull])] at hrest
        rcases Completes.raiseIf_bind_cases hrest with ⟨-, rfl, rfl⟩ | ⟨hunwritten, hsleep⟩
        · exact .endedAfter hfine hreported (by simp [AfterPoll]) (Or.inl ⟨_, rfl⟩)
        · obtain ⟨tr'', rfl, hret⟩ := sleep_bind_cases hsleep
          obtain ⟨rfl, rfl⟩ := hret.ret_cases
          exact .unwritten hfine hreported hfinished (not_le.1 hunwritten)
  · rcases Completes.bind_cases h with ⟨e, hwritten, rfl⟩ | ⟨hwritten, rfl⟩ | ⟨value, tr₁, tr₂, rfl, hwritten, hret⟩
    · obtain ⟨hafter, ⟨e', heq, hraises⟩ | ⟨value, heq, -⟩⟩ := writtenResult_cases hwritten
      · cases heq
        exact .endedAfter hfine hreported hafter hraises
      · cases heq
    · obtain ⟨hafter, ⟨e', heq, -⟩ | ⟨value, heq, -⟩⟩ := writtenResult_cases hwritten <;> cases heq
    · obtain ⟨rfl, rfl⟩ := hret.ret_cases
      obtain ⟨hafter, ⟨e', heq, -⟩ | ⟨value', heq, hnull, hfetched⟩⟩ := writtenResult_cases hwritten
      · cases heq
      · cases heq
        rw [List.append_nil]
        exact .endedAfter hfine hreported hafter ⟨hnull, hfinished, hterminated, hfailed, hfetched⟩

end Present

theorem presentRound_cases (h : Completes (presentRound rt jobId opts st job) tr out) :
    PollRun jobId opts st (.ok (some job)) tr out := by
  rcases reportProgress_bind_cases h with
    ⟨⟨hreports, hhuge⟩, rfl, rfl⟩ | ⟨hfine, reported, tr', rfl, hreported, hrest⟩
  · exact .huge job hreports hhuge
  · rcases Completes.raiseIf_bind_cases hrest with ⟨-, rfl, rfl⟩ | ⟨hterminated, hrest'⟩
    · exact .endedAfter hfine hreported (by simp) (Or.inl ⟨_, rfl⟩)
    · rcases Completes.raiseIf_bind_cases hrest' with ⟨-, rfl, rfl⟩ | ⟨hfailed, hlast⟩
      · exact .endedAfter hfine hreported (by simp) (Or.inl ⟨_, rfl⟩)
      · rw [Bool.not_eq_true] at hterminated hfailed
        split at hlast
        next hfinished => exact finishedRound_cases hfine hreported hfinished hterminated hfailed hlast
        next hfinished =>
          rw [Bool.not_eq_true] at hfinished
          obtain ⟨tr'', rfl, hret⟩ := sleep_bind_cases hlast
          obtain ⟨rfl, rfl⟩ := hret.ret_cases
          exact .unfinished hfine hreported (by simp [isUnfinished, hterminated, hfailed, hfinished])

theorem awaitRound_cases (h : Completes (awaitRound rt jobId opts st) tr out) : RoundRun jobId opts st tr out := by
  have hpoll : ∀ {k : Option Json → SampleProg Round} {tr : List (Event SampleI)},
      k none = missingRound jobId opts st → (∀ job, k (some job) = presentRound rt jobId opts st job) →
        Completes (request (.getJobData jobId) >>= k) tr out →
          ∃ answer rest, tr = ⟨.server (.getJobData jobId), answer⟩ :: rest ∧
            PollRun jobId opts st answer rest out := by
    intro k tr hnone hsome hrun
    rcases request_bind_cases hrun with ⟨e, rfl, rfl⟩ | ⟨answer, tr', rfl, hrest⟩
    · exact ⟨_, _, rfl, .failed e⟩
    · cases answer with
      | none =>
        rw [hnone] at hrest
        exact ⟨_, _, rfl, missingRound_cases hrest⟩
      | some job =>
        rw [hsome] at hrest
        exact ⟨_, _, rfl, presentRound_cases hrest⟩
  unfold awaitRound polledStop at h
  split at h
  · obtain ⟨(stop : Bool), tr', rfl, hstop⟩ := Completes.call_cases h
    rcases Completes.raiseIf_bind_cases hstop with ⟨hstopped, rfl, rfl⟩ | ⟨hgoes, hrest⟩
    · cases hstopped
      exact .stopped
    · rw [Bool.not_eq_true] at hgoes
      subst hgoes
      obtain ⟨answer, rest, rfl, hround⟩ := hpoll rfl (fun _ => rfl) hrest
      exact .polled (Or.inr rfl) hround
  · obtain ⟨answer, rest, rfl, hround⟩ := hpoll rfl (fun _ => rfl) h
    exact .polled (Or.inl rfl) hround

end Rounds

/-! ## What goes on in a round -/

def isStop : Event SampleI → Bool
  | ⟨.shouldStop, true⟩ => true
  | _ => false

/-- A request whose answer is an error of the client. -/
def isRefused : Event SampleI → Bool
  | ⟨.server _, .error _⟩ => true
  | _ => false

/-- The poll of a job whose progress is an integer beyond the floats, where progress is reported. -/
def ReportsHuge (opts : AwaitOptions) : Event SampleI → Prop
  | ⟨.server (.getJobData _), .ok (some job)⟩ => opts.reports = true ∧ HugeProgress job
  | _ => False

/-- No poll, no stop, and no delay but the two of the round. -/
structure Calm (opts : AwaitOptions) (st : AwaitState) (e : Event SampleI) : Prop where
  poll : isPoll e = false
  stop : isStop e = false
  delay (seconds : ℚ) : e = ⟨.sleep seconds, ()⟩ → seconds = opts.sleepS ∨ seconds = st.delay

/-- No error of the client and no progress that cannot be reported. -/
structure Harmless (opts : AwaitOptions) (e : Event SampleI) : Prop where
  refused : isRefused e = false
  huge : ¬ ReportsHuge opts e

section Facts

variable {st next : AwaitState} {rest : List (Event SampleI)} {out : Outcome PyError Round}
  {answer : Except PyError (Option Json)}

theorem AfterPoll.cases {e : Event SampleI} (h : AfterPoll e) : (∃ fraction, e = ⟨.onProgress fraction, ()⟩) ∨
    (∃ resultId answer, e = ⟨.server (.getResult resultId), answer⟩) ∨
      ∃ jobId answer, e = ⟨.server (.getResultForJob jobId), answer⟩ := by
  unfold AfterPoll at h
  split at h
  · exact .inl ⟨_, rfl⟩
  · exact .inr (.inl ⟨_, _, rfl⟩)
  · exact .inr (.inr ⟨_, _, rfl⟩)
  · exact h.elim

theorem AfterPoll.calm {e : Event SampleI} (h : AfterPoll e) : Calm opts st e := by
  rcases h.cases with ⟨fraction, rfl⟩ | ⟨resultId, answer, rfl⟩ | ⟨jobId, answer, rfl⟩ <;>
    exact ⟨rfl, rfl, fun _ heq => by cases heq⟩

theorem Reported.harmless {reported : List (Event SampleI)} (h : Reported reported) :
    ∀ e ∈ reported, Harmless opts e := by
  cases h with
  | silent => simp
  | progress fraction =>
    intro e he
    obtain rfl := List.mem_singleton.1 he
    exact ⟨rfl, id⟩

theorem calm_sleep {seconds : ℚ} (h : seconds = opts.sleepS ∨ seconds = st.delay) :
    Calm opts st ⟨.sleep seconds, ()⟩ := by
  refine ⟨rfl, rfl, fun seconds' heq => ?_⟩
  cases heq
  exact h

/-- After its poll a round calls what `AfterPoll` says, and sleeps. -/
theorem PollRun.after (h : PollRun jobId opts st answer rest out) :
    ∀ e ∈ rest, AfterPoll e ∨ e = ⟨.sleep opts.sleepS, ()⟩ ∨ e = ⟨.sleep st.delay, ()⟩ := by
  intro e he
  cases h with
  | failed => cases he
  | lost => cases he
  | huge => cases he
  | missing => exact .inr (.inl (List.mem_singleton.1 he))
  | ended _ hrest => exact .inl (hrest e he)
  | unwritten _ hreported =>
    rcases List.mem_append.1 he with he | he
    · exact .inl (hreported.afterPoll e he)
    · rcases List.mem_pair.1 he with rfl | rfl
      · exact .inl trivial
      · exact .inr (.inl rfl)
  | unfinished _ hreported =>
    rcases List.mem_append.1 he with he | he
    · exact .inl (hreported.afterPoll e he)
    · exact .inr (.inr (List.mem_singleton.1 he))

theorem PollRun.calm (h : PollRun jobId opts st answer rest out) : ∀ e ∈ rest, Calm opts st e := by
  intro e he
  rcases h.after e he with hafter | rfl | rfl
  · exact hafter.calm
  · exact calm_sleep (.inl rfl)
  · exact calm_sleep (.inr rfl)

/-- A round that goes on sleeps at its end, and nothing in it fails. -/
theorem PollRun.goesOn (h : PollRun jobId opts st answer rest (.returned (.inr next))) :
    (∃ before seconds, rest = before ++ [⟨.sleep seconds, ()⟩]) ∧
      ∀ e ∈ ⟨.server (.getJobData jobId), answer⟩ :: rest, Harmless opts e := by
  cases h with
  | missing =>
    refine ⟨⟨[], _, rfl⟩, fun e he => ?_⟩
    rcases List.mem_pair.1 he with rfl | rfl <;> exact ⟨rfl, id⟩
  | ended _ _ hends => exact hends.elim
  | unwritten hfine hreported =>
    refine ⟨⟨_ ++ [_], _, (List.append_assoc _ [_] [_]).symm⟩, fun e he => ?_⟩
    rcases List.mem_cons.1 he with rfl | he
    · exact ⟨rfl, hfine⟩
    · rcases List.mem_append.1 he with he | he
      · exact hreported.harmless e he
      · rcases List.mem_pair.1 he with rfl | rfl <;> exact ⟨rfl, id⟩
  | unfinished hfine hreported =>
    refine ⟨⟨_, _, rfl⟩, fun e he => ?_⟩
    rcases List.mem_cons.1 he with rfl | he
    · exact ⟨rfl, hfine⟩
    · rcases List.mem_append.1 he with he | he
      · exact hreported.harmless e he
      · obtain rfl := List.mem_singleton.1 he
        exact ⟨rfl, id⟩

/-- What the loop keeps: both counters stay below their limit, and the delay below its. -/
structure AwaitState.Within (opts : AwaitOptions) (st : AwaitState) : Prop where
  missing : st.missingCount < opts.maxConsecutiveMissing
  unwritten : st.unwrittenResults < opts.maxConsecutiveMissing
  delay : st.delay ≤ max opts.sleepS opts.maxSleepS

theorem AwaitState.within_init (h : 1 ≤ opts.maxConsecutiveMissing) : Within opts { delay := opts.sleepS } :=
  ⟨by dsimp only; omega, by dsimp only; omega, le_max_left _ _⟩

theorem PollRun.within (hone : 1 ≤ opts.maxConsecutiveMissing) (hst : st.Within opts)
    (h : PollRun jobId opts st answer rest (.returned (.inr next))) : next.Within opts := by
  cases h with
  | missing h => exact ⟨h, hst.unwritten, hst.delay⟩
  | ended _ _ hends => exact hends.elim
  | unwritten _ _ _ h => exact ⟨by dsimp only; omega, h, hst.delay⟩
  | unfinished => exact ⟨by dsimp only; omega, hst.unwritten, (min_le_left _ _).trans (le_max_right _ _)⟩

/-- How many polls are left, with so many polls of an unfinished job. -/
def budget (opts : AwaitOptions) (unfinished : ℕ) (st : AwaitState) : ℤ :=
  (unfinished + opts.maxConsecutiveMissing - st.unwrittenResults) * opts.maxConsecutiveMissing - st.missingCount

theorem one_le_budget (hone : 1 ≤ opts.maxConsecutiveMissing) (hst : st.Within opts) (unfinished : ℕ) :
    1 ≤ budget opts unfinished st := by
  have hleft : 1 ≤ (unfinished : ℤ) + opts.maxConsecutiveMissing - st.unwrittenResults := by
    have := hst.unwritten
    omega
  have hmul : opts.maxConsecutiveMissing ≤
      (unfinished + opts.maxConsecutiveMissing - st.unwrittenResults) * opts.maxConsecutiveMissing :=
    le_mul_of_one_le_left (by omega) hleft
  have hmissing := hst.missing
  unfold budget
  omega

/-- Each poll takes one off the budget. -/
theorem PollRun.budget (hone : 1 ≤ opts.maxConsecutiveMissing) (hst : st.Within opts)
    (h : PollRun jobId opts st answer rest (.returned (.inr next))) (n : ℕ) :
    budget opts n next + 1 ≤ budget opts (unfinishedPolls (⟨.server (.getJobData jobId), answer⟩ :: rest) + n) st := by
  have hmissing := hst.missing
  have hpolls : (0 : ℤ) ≤
      unfinishedPolls (⟨.server (.getJobData jobId), answer⟩ :: rest) * opts.maxConsecutiveMissing :=
    mul_nonneg (by omega) (by omega)
  unfold McritSimilarity.budget
  rw [Nat.cast_add]
  cases h with
  | missing => linarith
  | ended _ _ hends => exact hends.elim
  | unwritten => linarith
  | @unfinished job reported _ _ hunfinished =>
    have hcount : 1 ≤ unfinishedPolls (⟨.server (.getJobData jobId), .ok (some job)⟩ ::
        (reported ++ [⟨.sleep st.delay, ()⟩])) :=
      List.countP_pos_iff.2 ⟨_, List.mem_cons_self, hunfinished⟩
    have hpoll : opts.maxConsecutiveMissing ≤ unfinishedPolls (⟨.server (.getJobData jobId), .ok (some job)⟩ ::
        (reported ++ [⟨.sleep st.delay, ()⟩])) * opts.maxConsecutiveMissing :=
      le_mul_of_one_le_left (by omega) (by exact_mod_cast hcount)
    linarith

end Facts

/-! ## The loop -/

inductive LoopRun (jobId : String) (opts : AwaitOptions) :
    ℕ → AwaitState → List (Event SampleI) → Outcome PyError Json → Prop where
  | spin (st : AwaitState) : LoopRun jobId opts 0 st [] .pending
  | raised {fuel : ℕ} {st : AwaitState} {tr : List (Event SampleI)} {e : PyError}
      (h : RoundRun jobId opts st tr (.raised e)) : LoopRun jobId opts (fuel + 1) st tr (.raised e)
  | returned {fuel : ℕ} {st : AwaitState} {tr : List (Event SampleI)} {value : Json}
      (h : RoundRun jobId opts st tr (.returned (.inl value))) : LoopRun jobId opts (fuel + 1) st tr (.returned value)
  | next {fuel : ℕ} {st next : AwaitState} {tr rest : List (Event SampleI)} {out : Outcome PyError Json}
      (h : RoundRun jobId opts st tr (.returned (.inr next))) (hrest : LoopRun jobId opts fuel next rest out) :
      LoopRun jobId opts (fuel + 1) st (tr ++ rest) out

theorem RoundRun.not_pending {st : AwaitState} {tr : List (Event SampleI)} (h : RoundRun jobId opts st tr .pending) :
    False := by
  cases h with
  | polled _ h =>
    cases h with
    | ended _ _ hends => exact hends

theorem awaitLoop_cases {fuel : ℕ} {st : AwaitState} {tr : List (Event SampleI)} {out : Outcome PyError Json}
    (h : Completes (awaitLoop rt jobId opts fuel st) tr out) : LoopRun jobId opts fuel st tr out := by
  induction fuel generalizing st tr with
  | zero =>
    cases h
    exact .spin st
  | succ fuel ih =>
    rcases Completes.bind_cases h with ⟨e, hround, rfl⟩ | ⟨hround, -⟩ | ⟨r, tr₁, tr₂, rfl, hround, hrest⟩
    · exact .raised (awaitRound_cases hround)
    · exact (awaitRound_cases hround).not_pending.elim
    · cases r with
      | inl value =>
        obtain ⟨rfl, rfl⟩ := hrest.ret_cases
        rw [List.append_nil]
        exact .returned (awaitRound_cases hround)
      | inr next => exact .next (awaitRound_cases hround) (ih hrest)

section Rounds

variable {st next : AwaitState} {tr : List (Event SampleI)} {out : Outcome PyError Round}

/-- A round is a stop, or it polls once. -/
theorem RoundRun.shape (h : RoundRun jobId opts st tr out) :
    (tr = [⟨.shouldStop, true⟩] ∧ out = .raised (jobError "MCRIT job cancelled")) ∨
      ∃ asked answer rest, tr = asked ++ ⟨.server (.getJobData jobId), answer⟩ :: rest ∧
        PollRun jobId opts st answer rest out ∧ (∀ e ∈ asked, Calm opts st e ∧ Harmless opts e) := by
  cases h with
  | stopped => exact Or.inl ⟨rfl, rfl⟩
  | @polled asked rest answer out hasked h =>
    refine Or.inr ⟨asked, answer, rest, rfl, h, fun e he => ?_⟩
    rcases hasked with rfl | rfl
    · cases he
    · obtain rfl := List.mem_singleton.1 he
      exact ⟨⟨rfl, rfl, fun _ heq => nomatch heq⟩, ⟨rfl, id⟩⟩

theorem polls_append (tr₁ tr₂ : List (Event SampleI)) : polls (tr₁ ++ tr₂) = polls tr₁ + polls tr₂ :=
  List.countP_append

theorem unfinishedPolls_append (tr₁ tr₂ : List (Event SampleI)) :
    unfinishedPolls (tr₁ ++ tr₂) = unfinishedPolls tr₁ + unfinishedPolls tr₂ :=
  List.countP_append

theorem polls_eq_zero {tr : List (Event SampleI)} (h : ∀ e ∈ tr, Calm opts st e) : polls tr = 0 :=
  List.countP_eq_zero.2 fun e he => by simp [(h e he).poll]

theorem polls_polled {asked rest : List (Event SampleI)} {answer : Except PyError (Option Json)}
    (hasked : ∀ e ∈ asked, Calm opts st e) (hrest : ∀ e ∈ rest, Calm opts st e) :
    polls (asked ++ ⟨.server (.getJobData jobId), answer⟩ :: rest) = 1 := by
  rw [polls_append, polls_eq_zero hasked]
  have hpoll : polls (⟨.server (.getJobData jobId), answer⟩ :: rest) = polls rest + 1 :=
    List.countP_cons_of_pos (by rfl)
  rw [hpoll, polls_eq_zero hrest]

theorem RoundRun.polls_le (h : RoundRun jobId opts st tr out) : polls tr ≤ 1 := by
  rcases h.shape with ⟨rfl, -⟩ | ⟨asked, answer, rest, rfl, hpoll, hasked⟩
  · exact Nat.zero_le 1
  · exact (polls_polled (fun e he => (hasked e he).1) hpoll.calm).le

theorem RoundRun.polls_eq (h : RoundRun jobId opts st tr (.returned (.inr next))) : polls tr = 1 := by
  rcases h.shape with ⟨-, hout⟩ | ⟨asked, answer, rest, rfl, hpoll, hasked⟩
  · cases hout
  · exact polls_polled (fun e he => (hasked e he).1) hpoll.calm

theorem RoundRun.within (hone : 1 ≤ opts.maxConsecutiveMissing) (hst : st.Within opts)
    (h : RoundRun jobId opts st tr (.returned (.inr next))) : next.Within opts := by
  cases h with
  | polled _ h => exact h.within hone hst

theorem RoundRun.budget (hone : 1 ≤ opts.maxConsecutiveMissing) (hst : st.Within opts)
    (h : RoundRun jobId opts st tr (.returned (.inr next))) (n : ℕ) :
    budget opts n next + 1 ≤ budget opts (unfinishedPolls tr + n) st := by
  cases h with
  | @polled asked rest answer _ hasked h =>
    have hpoll := h.budget hone hst n
    rcases hasked with rfl | rfl
    · exact hpoll
    · exact hpoll

theorem RoundRun.harmless (h : RoundRun jobId opts st tr (.returned (.inr next))) : ∀ e ∈ tr, Harmless opts e := by
  rcases h.shape with ⟨-, hout⟩ | ⟨asked, answer, rest, rfl, hpoll, hasked⟩
  · cases hout
  · intro e he
    rcases List.mem_append.1 he with he | he
    · exact (hasked e he).2
    · exact hpoll.goesOn.2 e he

end Rounds

section Loop

variable {fuel : ℕ} {st : AwaitState} {tr : List (Event SampleI)} {out : Outcome PyError Json}

theorem LoopRun.polls_le (hone : 1 ≤ opts.maxConsecutiveMissing) (h : LoopRun jobId opts fuel st tr out)
    (hst : st.Within opts) : (polls tr : ℤ) ≤ budget opts (unfinishedPolls tr) st := by
  induction h with
  | spin st => exact (Int.natCast_nonneg _).trans ((one_le_budget hone hst _).trans' zero_le_one)
  | raised h => exact le_trans (by exact_mod_cast h.polls_le) (one_le_budget hone hst _)
  | returned h => exact le_trans (by exact_mod_cast h.polls_le) (one_le_budget hone hst _)
  | @next _ _ _ tr rest _ h _ ih =>
    have hrest := ih (h.within hone hst)
    have hround := h.budget hone hst (unfinishedPolls rest)
    rw [polls_append, unfinishedPolls_append, h.polls_eq]
    push_cast
    linarith

/-- The loop runs out of fuel only with a poll for each unit of it. -/
theorem LoopRun.fuel_le (h : LoopRun jobId opts fuel st tr out) (hout : out = .pending) : fuel ≤ polls tr := by
  induction h with
  | spin => exact Nat.zero_le _
  | raised => cases hout
  | returned => cases hout
  | next h _ ih =>
    rw [polls_append, h.polls_eq]
    have := ih hout
    omega

/-! ## Stops and delays -/

theorem RoundRun.stop_last {round : Outcome PyError Round} (h : RoundRun jobId opts st tr round)
    (hstop : (⟨.shouldStop, true⟩ : Event SampleI) ∈ tr) : tr = [⟨.shouldStop, true⟩] := by
  rcases h.shape with ⟨rfl, -⟩ | ⟨asked, answer, rest, rfl, hpoll, hasked⟩
  · rfl
  · have hcalm : ∀ {e : Event SampleI}, Calm opts st e → e ≠ ⟨.shouldStop, true⟩ := by
      rintro e he rfl
      exact Bool.noConfusion he.stop
    rcases List.mem_append.1 hstop with hmem | hmem
    · exact (hcalm (hasked _ hmem).1 rfl).elim
    · rcases List.mem_cons.1 hmem with heq | hmem
      · cases heq
      · exact (hcalm (hpoll.calm _ hmem) rfl).elim

theorem RoundRun.sleep_cases {round : Outcome PyError Round} {seconds : ℚ} (h : RoundRun jobId opts st tr round)
    (hmem : (⟨.sleep seconds, ()⟩ : Event SampleI) ∈ tr) : seconds = opts.sleepS ∨ seconds = st.delay := by
  rcases h.shape with ⟨rfl, -⟩ | ⟨asked, answer, rest, rfl, hpoll, hasked⟩
  · cases List.mem_singleton.1 hmem
  · rcases List.mem_append.1 hmem with hmem | hmem
    · exact (hasked _ hmem).1.delay seconds rfl
    · rcases List.mem_cons.1 hmem with heq | hmem
      · cases heq
      · exact (hpoll.calm _ hmem).delay seconds rfl

theorem append_cons_of_not_mem {α : Type} {l₁ l₂ before after : List α} {x : α}
    (h : l₁ ++ l₂ = before ++ x :: after) (hx : x ∉ l₁) : ∃ c, before = l₁ ++ c ∧ l₂ = c ++ x :: after := by
  rcases List.append_eq_append_iff.1 h with ⟨c, hbefore, hl₂⟩ | ⟨c, hl₁, hafter⟩
  · exact ⟨c, hbefore, hl₂⟩
  · cases c with
    | nil => exact ⟨[], by simpa using hl₁.symm, by simpa using hafter.symm⟩
    | cons y c =>
      obtain ⟨rfl, -⟩ := List.cons.inj hafter
      exact (hx (hl₁ ▸ List.mem_append_right _ List.mem_cons_self)).elim

theorem RoundRun.after_stop {round : Outcome PyError Round} {before after : List (Event SampleI)}
    (h : RoundRun jobId opts st (before ++ ⟨.shouldStop, true⟩ :: after) round) : after = [] := by
  have hlast := h.stop_last (List.mem_append_right _ List.mem_cons_self)
  have hlength := congrArg List.length hlast
  simp only [List.length_append, List.length_cons, List.length_nil] at hlength
  exact List.eq_nil_of_length_eq_zero (by omega)

/-- Nothing is called after a stop. -/
theorem LoopRun.after_stop (h : LoopRun jobId opts fuel st tr out) {before after : List (Event SampleI)}
    (htr : tr = before ++ ⟨.shouldStop, true⟩ :: after) : after = [] := by
  induction h generalizing before with
  | spin => simp at htr
  | raised h =>
    subst htr
    exact h.after_stop
  | returned h =>
    subst htr
    exact h.after_stop
  | @next _ st _ tr rest _ h _ ih =>
    have hgoes : (⟨.shouldStop, true⟩ : Event SampleI) ∉ tr := by
      intro hmem
      have hpolls := h.polls_eq
      rw [h.stop_last hmem] at hpolls
      cases hpolls
    obtain ⟨c, -, hrest⟩ := append_cons_of_not_mem htr hgoes
    exact ih hrest

theorem LoopRun.sleep_le (hone : 1 ≤ opts.maxConsecutiveMissing) (h : LoopRun jobId opts fuel st tr out)
    (hst : st.Within opts) {seconds : ℚ} (hmem : (⟨.sleep seconds, ()⟩ : Event SampleI) ∈ tr) :
    seconds ≤ max opts.sleepS opts.maxSleepS := by
  have hround : ∀ {st : AwaitState} {tr : List (Event SampleI)} {round : Outcome PyError Round},
      st.Within opts → RoundRun jobId opts st tr round → ⟨.sleep seconds, ()⟩ ∈ tr →
        seconds ≤ max opts.sleepS opts.maxSleepS := by
    intro st tr round hst h hmem
    rcases h.sleep_cases hmem with rfl | rfl
    · exact le_max_left _ _
    · exact hst.delay
  induction h with
  | spin => cases hmem
  | raised h => exact hround hst h hmem
  | returned h => exact hround hst h hmem
  | next h _ ih =>
    rcases List.mem_append.1 hmem with hmem | hmem
    · exact hround hst h hmem
    · exact ih (h.within hone hst) hmem

end Loop

/-- Between two polls there is a sleep. -/
def SleepsBetween (tr : List (Event SampleI)) : Prop :=
  ∀ before first between second after, tr = before ++ first :: (between ++ second :: after) →
    isPoll first = true → isPoll second = true → ∃ seconds, (⟨.sleep seconds, ()⟩ : Event SampleI) ∈ between

section Between

variable {tr rest : List (Event SampleI)}

theorem SleepsBetween.cons {e : Event SampleI} (h : SleepsBetween tr) (he : isPoll e = false) :
    SleepsBetween (e :: tr) := by
  intro before first between second after htr hfirst hsecond
  cases before with
  | nil =>
    obtain ⟨rfl, -⟩ := List.cons.inj htr
    rw [he] at hfirst
    cases hfirst
  | cons e' before => exact h before first between second after (List.cons.inj htr).2 hfirst hsecond

theorem SleepsBetween.append {quiet : List (Event SampleI)} (h : SleepsBetween tr)
    (hquiet : ∀ e ∈ quiet, isPoll e = false) : SleepsBetween (quiet ++ tr) := by
  induction quiet with
  | nil => exact h
  | cons e quiet ih =>
    exact (ih fun e' he' => hquiet e' (List.mem_cons_of_mem _ he')).cons (hquiet e List.mem_cons_self)

theorem sleepsBetween_nil : SleepsBetween [] := by
  intro before first between second after htr
  simp at htr

/-- The last poll. -/
theorem sleepsBetween_last (hrest : ∀ e ∈ rest, isPoll e = false) (p : Event SampleI) : SleepsBetween (p :: rest) := by
  have hquiet : SleepsBetween rest := by simpa using sleepsBetween_nil.append hrest
  intro before first between second after htr hfirst hsecond
  cases before with
  | nil =>
    obtain ⟨rfl, rfl⟩ := List.cons.inj htr
    rw [hrest second (List.mem_append_right _ List.mem_cons_self)] at hsecond
    cases hsecond
  | cons e before => exact hquiet before first between second after (List.cons.inj htr).2 hfirst hsecond

/-- A poll with a sleep behind it. -/
theorem SleepsBetween.polled (h : SleepsBetween tr) (hrest : ∀ e ∈ rest, isPoll e = false) (p : Event SampleI)
    (seconds : ℚ) : SleepsBetween (p :: (rest ++ ⟨.sleep seconds, ()⟩ :: tr)) := by
  have hsleep : SleepsBetween (⟨.sleep seconds, ()⟩ :: tr) := h.cons rfl
  intro before first between second after htr hfirst hsecond
  cases before with
  | nil =>
    obtain ⟨rfl, hsplit⟩ := List.cons.inj htr
    have hmem : second ∉ rest := fun hmem => Bool.false_ne_true ((hrest second hmem).symm.trans hsecond)
    obtain ⟨c, rfl, hc⟩ := append_cons_of_not_mem hsplit hmem
    cases c with
    | nil =>
      obtain ⟨rfl, -⟩ := List.cons.inj hc
      cases hsecond
    | cons e c =>
      obtain ⟨rfl, -⟩ := List.cons.inj hc
      exact ⟨seconds, List.mem_append_right _ List.mem_cons_self⟩
  | cons e before =>
    exact hsleep.append hrest before first between second after (List.cons.inj htr).2 hfirst hsecond

end Between

section Loop

variable {fuel : ℕ} {st : AwaitState} {tr : List (Event SampleI)} {out : Outcome PyError Json}

theorem RoundRun.sleepsBetween_last {round : Outcome PyError Round} (h : RoundRun jobId opts st tr round) :
    SleepsBetween tr := by
  rcases h.shape with ⟨rfl, -⟩ | ⟨asked, answer, rest, rfl, hpoll, hasked⟩
  · exact sleepsBetween_nil.cons rfl
  · have hlast := McritSimilarity.sleepsBetween_last (fun e he => (hpoll.calm e he).poll)
      ⟨.server (.getJobData jobId), answer⟩
    exact hlast.append fun e he => (hasked e he).1.poll

theorem RoundRun.sleepsBetween_next {next : AwaitState} {rest : List (Event SampleI)}
    (h : RoundRun jobId opts st tr (.returned (.inr next))) (hrest : SleepsBetween rest) :
    SleepsBetween (tr ++ rest) := by
  rcases h.shape with ⟨-, hout⟩ | ⟨asked, answer, after, rfl, hpoll, hasked⟩
  · cases hout
  · obtain ⟨before, seconds, rfl⟩ := hpoll.goesOn.1
    have hquiet : ∀ e ∈ before, isPoll e = false := fun e he => (hpoll.calm e (List.mem_append_left _ he)).poll
    have hpolled := hrest.polled hquiet ⟨.server (.getJobData jobId), answer⟩ seconds
    have hbetween := hpolled.append fun e he => (hasked e he).1.poll
    simpa only [List.append_assoc, List.cons_append, List.nil_append] using hbetween

theorem LoopRun.sleepsBetween (h : LoopRun jobId opts fuel st tr out) : SleepsBetween tr := by
  induction h with
  | spin => exact sleepsBetween_nil
  | raised h => exact h.sleepsBetween_last
  | returned h => exact h.sleepsBetween_last
  | next h _ ih => exact h.sleepsBetween_next ih

/-! ## The end of the loop -/

/-- The value was fetched after the last poll, which showed the job finished. -/
def FetchedLast (jobId : String) (tr : List (Event SampleI)) (value : Json) : Prop :=
  ∃ before job after, tr = before ++ ⟨.server (.getJobData jobId), .ok (some job)⟩ :: after ∧ polls after = 0 ∧
    jobFinished job = true ∧ jobTerminated job = false ∧ jobFailed job = false ∧ Fetched jobId after value

/-- How the loop ends, unless it meets a progress that cannot be reported. -/
def EndsAs (jobId : String) (tr : List (Event SampleI)) : Outcome PyError Json → Prop
  | .returned value => value.isNull = false ∧ FetchedLast jobId tr value
  | .raised e => Raises tr e
  | .pending => True

/-- The other end of the loop: `float(progress)` raises. -/
structure Overflows (opts : AwaitOptions) (tr : List (Event SampleI)) (out : Outcome PyError Json) : Prop where
  huge : ∃ e ∈ tr, ReportsHuge opts e
  raised : out = .raised (.builtin .overflowError)
  accepted : ∀ e ∈ tr, isRefused e = false

theorem AfterPoll.not_huge {e : Event SampleI} (h : AfterPoll e) : ¬ ReportsHuge opts e := by
  rcases h.cases with ⟨fraction, rfl⟩ | ⟨resultId, answer, rfl⟩ | ⟨jobId, answer, rfl⟩ <;> exact id

theorem Raises.append {rest : List (Event SampleI)} {e : PyError} (h : Raises rest e) (before : List (Event SampleI)) :
    Raises (before ++ rest) e := by
  rcases h with h | ⟨o, h⟩
  · exact Or.inl h
  · exact Or.inr ⟨o, List.mem_append_right _ h⟩

theorem EndsAs.append {rest : List (Event SampleI)} (h : EndsAs jobId rest out) (before : List (Event SampleI)) :
    EndsAs jobId (before ++ rest) out := by
  cases out with
  | returned value =>
    obtain ⟨hnull, before', job, after, rfl, hlast⟩ := h
    exact ⟨hnull, before ++ before', job, after, (List.append_assoc _ _ _).symm, hlast⟩
  | raised e => exact Raises.append h before
  | pending => trivial

theorem RoundRun.raised_cases {e : PyError} (h : RoundRun jobId opts st tr (.raised e)) :
    ((∀ x ∈ tr, ¬ ReportsHuge opts x) ∧ Raises tr e) ∨ Overflows opts tr (.raised e) := by
  rcases h.shape with ⟨rfl, hout⟩ | ⟨asked, answer, rest, rfl, hpoll, hasked⟩
  · cases hout
    refine Or.inl ⟨fun x hx => ?_, Or.inl ⟨_, rfl⟩⟩
    obtain rfl := List.mem_singleton.1 hx
    exact id
  · have hquiet : ∀ {rest : List (Event SampleI)} {answer : Except PyError (Option Json)},
        ¬ ReportsHuge opts ⟨.server (.getJobData jobId), answer⟩ → (∀ x ∈ rest, ¬ ReportsHuge opts x) →
          ∀ x ∈ asked ++ ⟨.server (.getJobData jobId), answer⟩ :: rest, ¬ ReportsHuge opts x := by
      intro rest answer hanswer hrest x hx
      rcases List.mem_append.1 hx with hx | hx
      · exact (hasked x hx).2.huge
      · rcases List.mem_cons.1 hx with rfl | hx
        · exact hanswer
        · exact hrest x hx
    have hnone : ∀ x ∈ ([] : List (Event SampleI)), ¬ ReportsHuge opts x := fun x hx => absurd hx List.not_mem_nil
    cases hpoll with
    | failed e => exact Or.inl ⟨hquiet id hnone, Or.inr ⟨_, List.mem_append_right _ (List.mem_singleton_self _)⟩⟩
    | lost message => exact Or.inl ⟨hquiet id hnone, Or.inl ⟨message, rfl⟩⟩
    | huge job hreports hhuge =>
      refine Or.inr ⟨⟨_, List.mem_append_right _ (List.mem_singleton_self _), hreports, hhuge⟩, rfl, fun x hx => ?_⟩
      rcases List.mem_append.1 hx with hx | hx
      · exact (hasked x hx).2.refused
      · obtain rfl := List.mem_singleton.1 hx
        rfl
    | ended hfine hrest hends =>
      refine Or.inl ⟨hquiet hfine fun x hx => (hrest x hx).not_huge, ?_⟩
      have hraises : Raises rest e := hends
      exact (hraises.append [_]).append asked

theorem RoundRun.returned_cases {value : Json} (h : RoundRun jobId opts st tr (.returned (.inl value))) :
    (∀ x ∈ tr, ¬ ReportsHuge opts x) ∧ EndsAs jobId tr (.returned value) := by
  rcases h.shape with ⟨-, hout⟩ | ⟨asked, answer, rest, rfl, hpoll, hasked⟩
  · cases hout
  · cases hpoll with
    | @ended job _ _ hfine hrest hends =>
      obtain ⟨hnull, hfinished, hterminated, hfailed, hfetched⟩ := hends
      have hpolls : polls rest = 0 :=
        @polls_eq_zero opts st _ fun e he => (hrest e he).calm
      refine ⟨fun x hx => ?_, hnull, asked, job, rest, rfl, hpolls, hfinished, hterminated, hfailed, hfetched⟩
      rcases List.mem_append.1 hx with hx | hx
      · exact (hasked x hx).2.huge
      · rcases List.mem_cons.1 hx with rfl | hx
        · exact hfine
        · exact (hrest x hx).not_huge

theorem LoopRun.ends (h : LoopRun jobId opts fuel st tr out) :
    ((∀ x ∈ tr, ¬ ReportsHuge opts x) ∧ EndsAs jobId tr out) ∨ Overflows opts tr out := by
  induction h with
  | spin => exact Or.inl ⟨by simp, trivial⟩
  | raised h => exact h.raised_cases
  | returned h => exact Or.inl h.returned_cases
  | next h _ ih =>
    rcases ih with ⟨hfine, hends⟩ | ⟨⟨x, hx, hhuge⟩, hraised, haccepted⟩
    · refine Or.inl ⟨fun x hx => ?_, hends.append _⟩
      rcases List.mem_append.1 hx with hx | hx
      · exact (h.harmless x hx).huge
      · exact hfine x hx
    · refine Or.inr ⟨⟨x, List.mem_append_right _ hx, hhuge⟩, hraised, fun x hx => ?_⟩
      rcases List.mem_append.1 hx with hx | hx
      · exact (h.harmless x hx).refused
      · exact haccepted x hx

theorem Overflows.not_raises (h : Overflows opts tr out) : ¬ Raises tr (.builtin .overflowError) := by
  rintro (⟨message, heq⟩ | ⟨o, hmem⟩)
  · cases heq
  · cases h.accepted _ hmem

end Loop

/-! ## Waiting -/

/-- What waiting for a job comes to, with so many polls that showed it unfinished. -/
structure Awaits (jobId : String) (opts : AwaitOptions) (unfinished : ℕ) (tr : List (Event SampleI))
    (out : Outcome PyError Json) : Prop where
  polls_le : (polls tr : ℤ) ≤ (unfinished + opts.maxConsecutiveMissing + 1) * opts.maxConsecutiveMissing
  ends : out ≠ .pending
  returned (value : Json) : out = .returned value → value.isNull = false ∧ FetchedLast jobId tr value
  raised (e : PyError) : out = .raised e → Raises tr e
  stopped (before after : List (Event SampleI)) : tr = before ++ ⟨.shouldStop, true⟩ :: after → polls after = 0
  between : SleepsBetween tr
  delay (seconds : ℚ) : ⟨.sleep seconds, ()⟩ ∈ tr → seconds ≤ max opts.sleepS opts.maxSleepS

variable {fuel : ℕ} {tr : List (Event SampleI)} {out : Outcome PyError Json} {unfinished : ℕ}

theorem awaitJob_polls_le (hone : 1 ≤ opts.maxConsecutiveMissing)
    (hrun : Completes (awaitJob rt fuel jobId opts) tr out) (hunfinished : unfinishedPolls tr ≤ unfinished) :
    (polls tr : ℤ) ≤ (unfinished + opts.maxConsecutiveMissing + 1) * opts.maxConsecutiveMissing := by
  have hpolls := (awaitLoop_cases hrun).polls_le hone (AwaitState.within_init hone)
  simp only [budget, sub_zero] at hpolls
  have hmono : (unfinishedPolls tr + opts.maxConsecutiveMissing) * opts.maxConsecutiveMissing ≤
      (unfinished + opts.maxConsecutiveMissing + 1) * opts.maxConsecutiveMissing :=
    mul_le_mul_of_nonneg_right (by omega) (by omega)
  exact hpolls.trans hmono

/-- Waiting ends as it should if and only if no poll shows a progress that cannot be reported. -/
theorem awaits_iff (hone : 1 ≤ opts.maxConsecutiveMissing) (hrun : Completes (awaitJob rt fuel jobId opts) tr out)
    (hunfinished : unfinishedPolls tr ≤ unfinished)
    (hfuel : (unfinished + opts.maxConsecutiveMissing + 1) * opts.maxConsecutiveMissing < fuel) :
    Awaits jobId opts unfinished tr out ↔ ∀ e ∈ tr, ¬ ReportsHuge opts e := by
  have hloop := awaitLoop_cases hrun
  have hpolls := awaitJob_polls_le hone hrun hunfinished
  rcases hloop.ends with ⟨hfine, hends⟩ | hover
  · refine iff_of_true ⟨hpolls, ?_, ?_, ?_, ?_, hloop.sleepsBetween, ?_⟩ hfine
    · intro hpending
      have hle := hloop.fuel_le hpending
      omega
    · rintro value rfl
      exact hends
    · rintro e rfl
      exact hends
    · intro before after htr
      rw [hloop.after_stop htr]
      rfl
    · exact fun seconds hmem => hloop.sleep_le hone (AwaitState.within_init hone) hmem
  · obtain ⟨x, hx, hhuge⟩ := hover.huge
    exact iff_of_false (fun h => hover.not_raises (h.raised _ hover.raised)) fun h => h x hx hhuge

/-! ## Runs -/

/-- A job that is half done. -/
def runningJob : Json := .dict [("progress", .float (.finite (1 / 2)))]

/-- A job that is done, while its result is still to be written. -/
def unwrittenJob : Json := .dict [("finished_at", .str "2024-01-01")]

/-- A finished job that names its result. -/
def finishedJob : Json := .dict [("finished_at", .str "2024-01-01"), ("result", .str "r")]

/-- Three missing answers are too many. -/
def patient : AwaitOptions := { maxConsecutiveMissing := 3 }

/-- A server whose polls show one of these after the other. -/
def slowAnswers : Handler SampleI (List (Option Json))
  | .server (.getJobData _), jobs => (.ok (jobs.headD none), jobs.tail)
  | .server (.getResult _), jobs => (.ok (.int 7), jobs)
  | .server (.getResultForJob _), jobs => (.ok .null, jobs)
  | .server _, jobs => (.error (.mcrit .base "no answer"), jobs)
  | .shouldStop, jobs => (false, jobs)
  | .onProgress _, jobs => ((), jobs)
  | .sleep _, jobs => ((), jobs)

def slowJobs : List (Option Json) := [none, some runningJob, some unwrittenJob, some finishedJob]

def slowTrace : List (Event SampleI) :=
  [⟨.shouldStop, false⟩, ⟨.server (.getJobData "j"), .ok none⟩, ⟨.sleep (1 / 4), ()⟩,
    ⟨.shouldStop, false⟩, ⟨.server (.getJobData "j"), .ok (some runningJob)⟩, ⟨.onProgress (.finite (1 / 2)), ()⟩,
    ⟨.sleep (1 / 4), ()⟩,
    ⟨.shouldStop, false⟩, ⟨.server (.getJobData "j"), .ok (some unwrittenJob)⟩,
    ⟨.server (.getResultForJob "j"), .ok .null⟩, ⟨.sleep (1 / 4), ()⟩,
    ⟨.shouldStop, false⟩, ⟨.server (.getJobData "j"), .ok (some finishedJob)⟩,
    ⟨.server (.getResult "r"), .ok (.int 7)⟩]

theorem completes_slowTrace :
    Completes (awaitJob plainRuntime 16 "j" patient) slowTrace (.returned (.int 7)) := by
  have htrace : (awaitJob plainRuntime 16 "j" patient).runTrace slowAnswers slowJobs = slowTrace := by
    with_unfolding_all rfl
  have hout : ((awaitJob plainRuntime 16 "j" patient).run slowAnswers slowJobs).1 = .returned (.int 7) := by
    with_unfolding_all rfl
  rw [← htrace, ← hout]
  exact completes_run slowAnswers (awaitJob plainRuntime 16 "j" patient) slowJobs

theorem not_hugeProgress_of_ne {job : Json} (h : ∀ n, field job "progress" ≠ .int n) : ¬ HugeProgress job := by
  rintro ⟨n, hn, -⟩
  exact h n hn

theorem not_reportsHuge_slowTrace : ∀ e ∈ slowTrace, ¬ ReportsHuge patient e := by
  have hrunning : ¬ HugeProgress runningJob := not_hugeProgress_of_ne fun n hn => by cases hn
  have hunwritten : ¬ HugeProgress unwrittenJob := not_hugeProgress_of_ne fun n hn => by cases hn
  have hfinished : ¬ HugeProgress finishedJob := not_hugeProgress_of_ne fun n hn => by cases hn
  simp [slowTrace, ReportsHuge, hrunning, hunwritten, hfinished]

/-- The job is missing, half done, done without a result and at last finished. -/
theorem awaits_slowTrace : Awaits "j" patient 1 slowTrace (.returned (.int 7)) :=
  (awaits_iff (by decide) completes_slowTrace (by decide) (by decide)).2 not_reportsHuge_slowTrace

/-- A job whose progress is an integer beyond the floats. -/
def hugeJob : Json := .dict [("progress", .int (10 ^ 400))]

/-- One missing answer is too many. -/
def impatient : AwaitOptions := { maxConsecutiveMissing := 1 }

def hugeTrace : List (Event SampleI) :=
  [⟨.shouldStop, false⟩, ⟨.server (.getJobData "j"), .ok (some hugeJob)⟩]

/-- A server that has the job, with the result 7. -/
def jobAnswers (job : Json) : (o : SampleOp) → o.Ans
  | .server (.getJobData _) => .ok (some job)
  | .server (.getResult _) => .ok (.int 7)
  | .server _ => .error (.mcrit .base "no answer")
  | .shouldStop => false
  | .onProgress _ => ()
  | .sleep _ => ()

theorem hugeProgress_hugeJob : HugeProgress hugeJob := ⟨10 ^ 400, rfl, by positivity, by decide +kernel⟩

theorem completes_hugeTrace : Completes (awaitJob plainRuntime 4 "j" impatient) hugeTrace
    (.raised (.builtin .overflowError)) := by
  have hpresent : presentRound plainRuntime "j" impatient { delay := 1 / 4 } hugeJob =
      Prog.raise (.builtin .overflowError) := by
    show (Prog.ofExcept (jobProgress hugeJob) >>= _) >>= _ = _
    rw [jobProgress_huge hugeProgress_hugeJob]
    rfl
  refine completes_of_outcome (jobAnswers hugeJob) ?_ ?_
  · show _ :: _ :: (presentRound plainRuntime "j" impatient { delay := 1 / 4 } hugeJob >>= _).trace _ = _
    rw [hpresent]
    rfl
  · show (presentRound plainRuntime "j" impatient { delay := 1 / 4 } hugeJob >>= _).outcome _ = _
    rw [hpresent]
    rfl

/-- The error of a huge progress is none of a job or a client. -/
theorem not_awaits_hugeTrace : ¬ ∀ (fuel unfinished : ℕ) (tr : List (Event SampleI)) (out : Outcome PyError Json),
    Completes (awaitJob plainRuntime fuel "j" impatient) tr out → unfinishedPolls tr ≤ unfinished →
      (unfinished + impatient.maxConsecutiveMissing + 1) * impatient.maxConsecutiveMissing < fuel →
        Awaits "j" impatient unfinished tr out := by
  intro h
  have hawaits := h 4 1 hugeTrace _ completes_hugeTrace (by decide) (by decide)
  rcases hawaits.raised _ rfl with ⟨message, heq⟩ | ⟨o, hmem⟩
  · cases heq
  · rcases List.mem_pair.1 hmem with heq | heq <;> cases heq

end McritSimilarity

import McritSimilarity.Lib.Faults
import McritSimilarity.TokenOrigin

/-!
# Malformed answers

Which answers of a server let a built-in exception out of the client, `jobs.py` and `samples.py`: an
envelope whose `status` is a list or an object, a `progress` beyond the floats, a `sample_id` that is
infinite.  Whatever else a server answers, a call ends in a value or in an error of the plugin.
-/

set_option autoImplicit false

namespace McritSimilarity

open Python Prog

/-- `McritError` or a subclass. -/
def IsMcritError : PyError → Prop
  | .mcrit _ _ => True
  | _ => False

/-- An error that is not the plugin's own. -/
def IsForeign (e : PyError) : Prop := ¬ IsMcritError e

/-- A client that the constructor has checked. -/
structure CheckedClient where
  client : McritClient
  checked : ∃ server apitoken username timeout, newClient server apitoken username timeout = .ok client

variable {rt : Runtime}

/-! ## Answers to a request -/

def isContainer : Json → Bool
  | .list _ => true
  | .dict _ => true
  | _ => false

/-- An envelope whose status cannot be looked up in a set. -/
def UnreadableStatus (response : Response) : Prop :=
  response.status ∈ ([200, 202] : List ℤ) ∧
    ∃ members, response.json = some (.dict members) ∧ isContainer (field (.dict members) "status") = true

/-- A request is answered with such an envelope. -/
def StatusFault (e : Event HttpI) : Prop :=
  ∃ r response, e = ⟨.send r, .ok response⟩ ∧ UnreadableStatus response

theorem inSuccess_of_container {status : Json} (h : isContainer status = true) :
    inSuccess status = .error .typeError ∧ status.eqStr "failed" = false := by
  cases status with
  | list xs => exact ⟨rfl, rfl⟩
  | dict members => exact ⟨rfl, rfl⟩
  | _ => cases h

theorem inSuccess_of_not_container {status : Json} (h : isContainer status = false) :
    ∃ success, inSuccess status = .ok success := by
  cases status with
  | list xs => cases h
  | dict members => cases h
  | str s => exact ⟨_, rfl⟩
  | _ => exact ⟨false, rfl⟩

theorem handleResponse_unreadable {response : Response} (h : UnreadableStatus response) :
    handleResponse rt response = .error (.builtin .typeError) := by
  obtain ⟨hstatus, members, hjson, hcontainer⟩ := h
  obtain ⟨htype, hfailed⟩ := inSuccess_of_container hcontainer
  have hdata : payloadData rt (.dict members) = .error (.builtin .typeError) := by
    have hdict : ¬ ¬ (Json.dict members).isDict = true := by simp [Json.isDict]
    unfold payloadData
    rw [if_neg hdict, hfailed, htype]
    rfl
  unfold handleResponse
  simp only [List.mem_cons, List.not_mem_nil, or_false] at hstatus ⊢
  rw [if_neg (by omega), if_neg (by omega), if_neg (by omega), if_neg (by omega), if_neg (by omega),
    if_neg (by omega), hjson]
  exact hdata

theorem payloadData_error {payload : Json} (h : payload.isDict = true → isContainer (field payload "status") = false)
    {e : PyError} (he : payloadData rt payload = .error e) : IsMcritError e := by
  unfold payloadData at he
  split_ifs at he with hdict hfailed
  · cases he
    trivial
  · obtain ⟨success, hsuccess⟩ := inSuccess_of_not_container (h hdict)
    rw [hsuccess] at he
    cases he

theorem handleResponse_error {response : Response} (h : ¬ UnreadableStatus response) {e : PyError}
    (he : handleResponse rt response = .error e) : IsMcritError e := by
  unfold handleResponse at he
  dsimp only at he
  split_ifs at he with hauth hredirect hmissing hbad hserver hstatus
  · cases he; trivial
  · cases he; trivial
  · cases he; trivial
  · cases he; trivial
  · cases hjson : response.json with
    | none =>
      rw [hjson] at he
      cases he
      trivial
    | some payload =>
      rw [hjson] at he
      refine payloadData_error (fun hdict => ?_) he
      cases payload with
      | dict members =>
        by_contra hcontainer
        exact h ⟨hstatus, members, hjson, by simpa using hcontainer⟩
      | _ => cases hdict
  · cases he; trivial

/-! ## `_request` -/

/-- A request faults at an unreadable status alone. -/
theorem attemptOnce_faultsAt {client : McritClient} {r : Request} {url : String} (hurl : client.url r.path = .ok url)
    {again : Option (HttpProg Json)} (hagain : ∀ p ∈ again, p.FaultsAt StatusFault IsForeign) :
    (attemptOnce rt client r again).FaultsAt StatusFault IsForeign := by
  unfold attemptOnce
  rw [hurl]
  rintro (e | response)
  · refine ⟨(fun ⟨r', response, heq, _⟩ => nomatch heq), fun _ => ?_⟩
    show (answered rt again (.error e)).FaultsAt _ _
    cases again with
    | none => exact fun h => h trivial
    | some p => exact faultsAt_ite (hagain p rfl) fun h => h trivial
  · by_cases hstatus : UnreadableStatus response
    · refine ⟨fun _ => ⟨.builtin .typeError, ?_, id⟩, fun h => absurd ⟨_, response, rfl, hstatus⟩ h⟩
      show answered rt again (.ok response) = .raise (.builtin .typeError)
      have hretry : response.status ∉ retryStatus := by
        have h := hstatus.1
        simp only [retryStatus, List.mem_cons, List.not_mem_nil, or_false] at h ⊢
        omega
      cases again with
      | none => rw [answered, handleResponse_unreadable hstatus]; rfl
      | some p => rw [answered, if_neg hretry, handleResponse_unreadable hstatus]; rfl
    · have hhandled : (Prog.ofExcept (handleResponse rt response) : HttpProg Json).FaultsAt StatusFault IsForeign := by
        cases hresult : handleResponse rt response with
        | ok data => trivial
        | error e => exact fun h => h (handleResponse_error hstatus hresult)
      refine ⟨?_, fun _ => ?_⟩
      · rintro ⟨r', response', heq, h⟩
        cases heq
        exact absurd h hstatus
      · show (answered rt again (.ok response)).FaultsAt _ _
        cases again with
        | none => exact hhandled
        | some p => exact faultsAt_ite (hagain p rfl) hhandled

theorem sendRequest_faultsAt (c : CheckedClient) {r : Request} (hr : HasRelativePath r) :
    (sendRequest rt c.client r).FaultsAt StatusFault IsForeign := by
  obtain ⟨server, apitoken, username, timeout, hclient⟩ := c.checked
  obtain ⟨parsed, hparsed, hscheme, -⟩ := newClient_origin hclient
  obtain ⟨url, hurl, -⟩ := originOf_url hparsed hscheme hr
  unfold sendRequest
  generalize (if r.retry then retryAttempts - 1 else 0) = left
  generalize 1 = number
  induction left generalizing number with
  | zero => exact attemptOnce_faultsAt hurl nofun
  | succ left ih =>
    refine attemptOnce_faultsAt hurl fun p hp => ?_
    cases hp
    exact fun _ => ⟨(fun ⟨r', response, heq, _⟩ => nomatch heq), fun _ => ih _⟩

/-! ## The methods -/

/-- A request ends in a foreign error. -/
def ForeignEnd (e : Event RequestI) : Prop := ∃ r error, e = ⟨r, .error error⟩ ∧ IsForeign error

theorem fetch_faultsAt {α : Type} {r : Request} {f : Json → RequestProg α}
    (hf : ∀ data, (f data).FaultsAt ForeignEnd IsForeign) :
    (fetch r >>= f).FaultsAt ForeignEnd IsForeign := by
  rintro (e | data)
  · refine ⟨?_, fun h => ?_⟩
    · rintro ⟨r', error, heq, he⟩
      cases heq
      exact ⟨_, rfl, he⟩
    · exact fun he => h ⟨r, e, rfl, he⟩
  · exact ⟨(fun ⟨r', error, heq, _⟩ => nomatch heq), fun _ => hf data⟩

theorem fetchFunctions_faultsAt (chunks : List (List ℤ)) (mapped : OrderedMap ℤ Json) :
    (fetchFunctions chunks mapped).FaultsAt ForeignEnd IsForeign := by
  induction chunks generalizing mapped with
  | nil => trivial
  | cons chunk chunks ih => exact fetch_faultsAt fun _ => ih _

theorem method_faultsAt (rt : Runtime) (call : ClientCall) :
    (call.method rt).FaultsAt ForeignEnd IsForeign := by
  have hret : ∀ r : Request, (fetch r).FaultsAt ForeignEnd IsForeign := by
    intro r
    rw [← bind_ret (fetch r)]
    exact fetch_faultsAt fun _ => trivial
  cases call with
  | getFunctionsByIds ids => exact fetchFunctions_faultsAt _ _
  | addReport report => exact fetch_faultsAt fun _ => faultsAt_ite trivial fun h => h trivial
  | exportCorpus => exact fetch_faultsAt fun _ => faultsAt_ite trivial fun h => h trivial
  | importCorpus body => exact fetch_faultsAt fun _ => faultsAt_ite trivial fun h => h trivial
  | getVersion => exact fetch_faultsAt fun _ => trivial
  | getSampleBySha256 sha256 => exact fetch_faultsAt fun _ => trivial
  | getJobData jobId => exact fetch_faultsAt fun _ => trivial
  | getJobs method sampleId => exact fetch_faultsAt fun _ => trivial
  | _ => exact hret _

theorem methodOverHttp_faultsAt (rt : Runtime) (c : CheckedClient) (call : ClientCall) :
    (methodOverHttp rt c.client (call.method rt)).FaultsAt StatusFault IsForeign := by
  refine (method_faultsAt rt call).inline (method_onlyCalls rt call) fun r hr => ?_
  refine (sendRequest_faultsAt c hr).asExcept.congr fun result => ?_
  constructor
  · rintro ⟨e, rfl, he⟩
    exact ⟨r, e, rfl, he⟩
  · rintro ⟨r', e, heq, he⟩
    cases heq
    exact ⟨e, rfl, he⟩

/-! ## Shapes -/

/-- The shape a method declares for what it returns, beyond its type here. -/
def ClientCall.Shape : (call : ClientCall) → call.Result → Prop
  | getSampleBySha256 _, document => ∀ data ∈ document, data.isDict = true
  | addReport _, data => data.isDict = true
  | getJobData _, document => ∀ data ∈ document, data.isDict = true
  | getJobs _ _, jobs => ∀ job ∈ jobs, job.isDict = true
  | exportCorpus, data => data.isDict = true
  | importCorpus _, data => data.isDict = true
  | getFunctionsByIds _, mapped => ∀ e ∈ mapped.entries, e.2.isDict = true
  | _, _ => True

theorem dictOrNone_isDict {data document : Json} (h : document ∈ dictOrNone data) : document.isDict = true := by
  unfold dictOrNone at h
  split_ifs at h with hdict
  · cases h
    exact hdict
  · cases h

theorem fetch_returns {α : Type} {r : Request} {f : Json → RequestProg α} {R : α → Prop}
    (hf : ∀ data, (f data).Returns R) : (fetch r >>= f).Returns R :=
  (returns_true (fetch r)).bind fun data _ => hf data

/-- All methods but `get_functions_by_ids` check the shape of what they return. -/
theorem method_returns (rt : Runtime) (call : ClientCall) (hcall : ∀ ids, call ≠ .getFunctionsByIds ids) :
    (call.method rt).Returns call.Shape := by
  have hdict : ∀ {data : Json} {c : Prop} [Decidable c] {e : PyError},
      (c → data.isDict = true) →
        (if c then pure data else Prog.raise e : RequestProg Json).Returns fun data => data.isDict = true := by
    intro data c _ e hc
    split_ifs with h
    · exact hc h
    · trivial
  cases call with
  | getFunctionsByIds ids => exact absurd rfl (hcall ids)
  | getSampleBySha256 sha256 => exact fetch_returns fun _ _ => dictOrNone_isDict
  | getJobData jobId => exact fetch_returns fun _ _ => dictOrNone_isDict
  | addReport report => exact fetch_returns fun _ => hdict And.left
  | exportCorpus => exact fetch_returns fun _ => hdict id
  | importCorpus body => exact fetch_returns fun _ => hdict id
  | getJobs method sampleId =>
    refine fetch_returns fun data job hjob => ?_
    cases data with
    | list jobs => exact (List.mem_filter.1 hjob).2
    | _ => cases hjob
  | _ => exact (returns_true _).mono fun _ _ => trivial

/-! ## Function entries -/

/-- The members of an answer that are function entries. -/
def functionEntries : Json → List (ℤ × Json)
  | .dict members => members.filterMap fun m => (intOfText m.1).map fun fid => (fid, m.2)
  | _ => []

theorem addFunctions_eq (mapped : OrderedMap ℤ Json) (data : Json) :
    addFunctions mapped data = (functionEntries data).foldl (fun mapped e => mapped.put e.1 e.2) mapped := by
  cases data with
  | dict members =>
    simp only [addFunctions, functionEntries]
    induction members generalizing mapped with
    | nil => rfl
    | cons m members ih =>
      rw [List.foldl_cons, ih]
      cases hfid : intOfText m.1 <;> simp [hfid]
  | _ => rfl

theorem foldl_addFunctions (answers : List Json) (mapped : OrderedMap ℤ Json) :
    answers.foldl addFunctions mapped =
      (answers.flatMap functionEntries).foldl (fun mapped e => mapped.put e.1 e.2) mapped := by
  induction answers generalizing mapped with
  | nil => rfl
  | cons data answers ih =>
    rw [List.foldl_cons, ih, addFunctions_eq, List.flatMap_cons, List.foldl_append]

/-- An entry that no later entry of its id replaces. -/
def IsLastEntry (entries : List (ℤ × Json)) (e : ℤ × Json) : Prop :=
  ∃ before after, entries = before ++ e :: after ∧ ∀ e' ∈ after, e'.1 ≠ e.1

theorem isLastEntry_cons {entries : List (ℤ × Json)} {e e' : ℤ × Json} :
    IsLastEntry (e' :: entries) e ↔ IsLastEntry entries e ∨ e' = e ∧ ∀ e'' ∈ entries, e''.1 ≠ e.1 := by
  constructor
  · rintro ⟨before, after, heq, hafter⟩
    cases before with
    | nil =>
      cases heq
      exact Or.inr ⟨rfl, hafter⟩
    | cons e'' before =>
      cases heq
      exact Or.inl ⟨before, after, rfl, hafter⟩
  · rintro (⟨before, after, rfl, hafter⟩ | ⟨rfl, hafter⟩)
    · exact ⟨e' :: before, after, rfl, hafter⟩
    · exact ⟨[], entries, rfl, hafter⟩

theorem find?_foldl_put {entries : List (ℤ × Json)} {mapped : OrderedMap ℤ Json} {fid : ℤ} {entry : Json} :
    (entries.foldl (fun mapped e => mapped.put e.1 e.2) mapped).find? fid = some entry ↔
      IsLastEntry entries (fid, entry) ∨ mapped.find? fid = some entry ∧ ∀ e ∈ entries, e.1 ≠ fid := by
  induction entries generalizing mapped with
  | nil => simp [IsLastEntry]
  | cons e entries ih =>
    obtain ⟨fid', entry'⟩ := e
    rw [List.foldl_cons, ih, isLastEntry_cons, OrderedMap.find?_put, List.forall_mem_cons, Prod.mk.injEq]
    by_cases hfid : fid = fid'
    · subst hfid
      simp
    · simp [hfid, Ne.symm hfid]

/-- The entries that are collected are the last ones of their ids. -/
theorem entries_isDict_iff (answers : List Json) :
    (∀ e ∈ (answers.foldl addFunctions .empty).entries, e.2.isDict = true) ↔
      ∀ e, IsLastEntry (answers.flatMap functionEntries) e → e.2.isDict = true := by
  rw [foldl_addFunctions]
  refine forall_congr' fun ⟨fid, entry⟩ => ?_
  rw [← OrderedMap.find?_eq_some_iff, find?_foldl_put]
  simp

/-! ## The data of an execution -/

/-- The data in an answer. -/
def answerData (rt : Runtime) : Event HttpI → Option Json
  | ⟨.send _, .ok response⟩ =>
    match handleResponse rt response with
    | .ok data => some data
    | .error _ => none
  | _ => none

/-- The data in the answers of an execution. -/
def traceData (rt : Runtime) (tr : List (Event HttpI)) : List Json := tr.filterMap (answerData rt)

/-- The last answer holds data. -/
def EndsWithData (rt : Runtime) (tr : List (Event HttpI)) : Prop :=
  ∀ e ∈ tr.getLast?, (answerData rt e).isSome = true

theorem traceData_append (tr tr' : List (Event HttpI)) :
    traceData rt (tr ++ tr') = traceData rt tr ++ traceData rt tr' := List.filterMap_append

theorem endsWithData_singleton {e : Event HttpI} : EndsWithData rt [e] ↔ (answerData rt e).isSome = true := by
  simp [EndsWithData]

/-- What the execution of a request says about its data. -/
inductive RequestEnd (rt : Runtime) (tr : List (Event HttpI)) : Outcome PyError Json → Prop where
  | returned (data : Json) (hdata : traceData rt tr = [data]) (hends : EndsWithData rt tr) :
      RequestEnd rt tr (.returned data)
  | raised (e : PyError) (hends : ¬ EndsWithData rt tr) : RequestEnd rt tr (.raised e)

/-- A last answer that is handled ends the request with its data, or with an error. -/
theorem requestEnd_handled {r : HttpRequest} {response : Response} {tr : List (Event HttpI)}
    {out : Outcome PyError Json}
    (h : Exec (Prog.ofExcept (handleResponse rt response) : HttpProg Json) tr out) (hend : out ≠ .pending) :
    RequestEnd rt (⟨.send r, .ok response⟩ :: tr) out := by
  cases hresult : handleResponse rt response with
  | ok data =>
    rw [hresult] at h
    have hdata : answerData rt ⟨.send r, .ok response⟩ = some data := by
      simp only [answerData, hresult]
    cases h with
    | ret =>
      refine .returned data ?_ (endsWithData_singleton.2 ?_)
      · rw [traceData, List.filterMap_cons_some hdata, List.filterMap_nil]
      · rw [hdata, Option.isSome_some]
    | pending => exact absurd rfl hend
  | error e =>
    rw [hresult] at h
    have hdata : answerData rt ⟨.send r, .ok response⟩ = none := by
      simp only [answerData, hresult]
    cases h with
    | raise =>
      refine .raised e fun hends => ?_
      rw [endsWithData_singleton, hdata] at hends
      cases hends
    | pending => exact absurd rfl hend

theorem requestEnd_failed {r : HttpRequest} {e : SendError} {tr : List (Event HttpI)}
    {out : Outcome PyError Json} (h : Exec (Prog.raise (requestFailed e) : HttpProg Json) tr out)
    (hend : out ≠ .pending) : RequestEnd rt (⟨.send r, .error e⟩ :: tr) out := by
  cases h with
  | raise => exact .raised _ fun hends => nomatch endsWithData_singleton.1 hends
  | pending => exact absurd rfl hend

/-- An answer without data, and the request goes on. -/
theorem RequestEnd.cons {e : Event HttpI} {tr : List (Event HttpI)} {out : Outcome PyError Json}
    (h : RequestEnd rt tr out) (he : answerData rt e = none) (htr : tr ≠ []) :
    RequestEnd rt (e :: tr) out := by
  have hends : EndsWithData rt (e :: tr) ↔ EndsWithData rt tr := by
    unfold EndsWithData
    rw [List.getLast?_cons_of_ne_nil htr]
  cases h with
  | returned data hdata h =>
    refine .returned data ?_ (hends.2 h)
    rw [traceData, List.filterMap_cons_none he]
    exact hdata
  | raised error h => exact .raised error fun h' => h (hends.1 h')

theorem handleResponse_retryStatus (rt : Runtime) {response : Response} (h : response.status ∈ retryStatus) :
    ∃ e, handleResponse rt response = .error e := by
  simp only [retryStatus, List.mem_cons, List.not_mem_nil, or_false] at h
  unfold handleResponse
  simp only [List.mem_cons, List.not_mem_nil, or_false]
  rw [if_neg (by omega), if_neg (by omega), if_neg (by omega), if_neg (by omega), if_pos (by omega)]
  exact ⟨_, rfl⟩

/-- The execution of a round that is followed by executions which say so. -/
theorem attemptOnce_requestEnd {client : McritClient} {r : Request} {url : String}
    (hurl : client.url r.path = .ok url) {again : Option (HttpProg Json)}
    (hagain : ∀ p ∈ again, ∀ tr out, Exec p tr out → out ≠ .pending → tr ≠ [] ∧ RequestEnd rt tr out)
    {tr : List (Event HttpI)} {out : Outcome PyError Json} (h : Exec (attemptOnce rt client r again) tr out)
    (hend : out ≠ .pending) : tr ≠ [] ∧ RequestEnd rt tr out := by
  unfold attemptOnce at h
  rw [hurl] at h
  cases h with
  | pending => exact absurd rfl hend
  | call answer h =>
    refine ⟨List.cons_ne_nil _ _, ?_⟩
    have h' : Exec (answered rt again answer) _ out := h
    cases answer with
    | error e =>
      cases again with
      | none => exact requestEnd_failed h' hend
      | some p =>
        simp only [answered] at h'
        split_ifs at h'
        · obtain ⟨htr, hrest⟩ := hagain p rfl _ _ h' hend
          exact hrest.cons rfl htr
        · exact requestEnd_failed h' hend
    | ok response =>
      cases again with
      | none => exact requestEnd_handled h' hend
      | some p =>
        simp only [answered] at h'
        split_ifs at h' with hretry
        · obtain ⟨htr, hrest⟩ := hagain p rfl _ _ h' hend
          obtain ⟨e, he⟩ := handleResponse_retryStatus rt hretry
          refine hrest.cons ?_ htr
          simp only [answerData, he]
        · exact requestEnd_handled h' hend

theorem sendRequest_requestEnd (c : CheckedClient) {r : Request} (hr : HasRelativePath r)
    {tr : List (Event HttpI)} {out : Outcome PyError Json} (h : Exec (sendRequest rt c.client r) tr out)
    (hend : out ≠ .pending) : tr ≠ [] ∧ RequestEnd rt tr out := by
  obtain ⟨server, apitoken, username, timeout, hclient⟩ := c.checked
  obtain ⟨parsed, hparsed, hscheme, -⟩ := newClient_origin hclient
  obtain ⟨url, hurl, -⟩ := originOf_url hparsed hscheme hr
  unfold sendRequest at h
  generalize (if r.retry then retryAttempts - 1 else 0) = left at h
  generalize 1 = number at h
  induction left generalizing number tr out with
  | zero => exact attemptOnce_requestEnd hurl (fun p hp => by cases hp) h hend
  | succ left ih =>
    refine attemptOnce_requestEnd hurl (fun p hp tr' out' h' hend' => ?_) h hend
    cases hp
    cases h' with
    | pending => exact absurd rfl hend'
    | call answer h' =>
      obtain ⟨htr, hrest⟩ := ih hend' _ h'
      exact ⟨List.cons_ne_nil _ _, hrest.cons rfl htr⟩

/-- What the execution of the batches says: it collects the data of all answers, or some answer had none. -/
inductive FunctionsEnd (rt : Runtime) (mapped : OrderedMap ℤ Json) (tr : List (Event HttpI)) :
    Outcome PyError (OrderedMap ℤ Json) → Prop where
  | returned (hends : EndsWithData rt tr) :
      FunctionsEnd rt mapped tr (.returned ((traceData rt tr).foldl addFunctions mapped))
  | raised (e : PyError) (hends : ¬ EndsWithData rt tr) : FunctionsEnd rt mapped tr (.raised e)

theorem endsWithData_append {tr tr' : List (Event HttpI)} (htr : EndsWithData rt tr) :
    EndsWithData rt (tr ++ tr') ↔ EndsWithData rt tr' := by
  unfold EndsWithData at htr ⊢
  rw [List.getLast?_append]
  cases hlast : tr'.getLast? with
  | none => simpa using htr
  | some e => simp

theorem fetchFunctions_functionsEnd (c : CheckedClient) (chunks : List (List ℤ)) (mapped : OrderedMap ℤ Json)
    {tr : List (Event HttpI)} {out : Outcome PyError (OrderedMap ℤ Json)}
    (h : Exec (methodOverHttp rt c.client (fetchFunctions chunks mapped)) tr out) (hend : out ≠ .pending) :
    FunctionsEnd rt mapped tr out := by
  induction chunks generalizing mapped tr out with
  | nil =>
    cases h with
    | ret => exact .returned fun e he => by cases he
    | pending => exact absurd rfl hend
  | cons chunk chunks ih =>
    have hpath : HasRelativePath ⟨"POST", "functions", true, .data (idsText chunk)⟩ :=
      isRelative_name "functions" (by decide) (by decide)
    rcases Exec.bind_cases (p := (sendRequest rt c.client _).asExcept) h with
      ⟨e, hraised, -⟩ | ⟨-, rfl⟩ | ⟨result, tr₁, tr₂, rfl, h₁, h₂⟩
    · exact absurd hraised Exec.asExcept_ne_raised
    · exact absurd rfl hend
    · rcases h₁.asExcept_returned with ⟨data, rfl, hsent⟩ | ⟨e, rfl, hsent⟩
      · obtain ⟨-, hrequest⟩ := sendRequest_requestEnd c hpath hsent nofun
        cases hrequest with
        | returned _ hdata hends =>
          have hrest := ih (addFunctions mapped data) h₂ hend
          cases hrest with
          | returned hends₂ =>
            have hfold : (traceData rt tr₂).foldl addFunctions (addFunctions mapped data) =
                (traceData rt (tr₁ ++ tr₂)).foldl addFunctions mapped := by
              rw [traceData_append, hdata]
              rfl
            rw [hfold]
            exact .returned ((endsWithData_append hends).2 hends₂)
          | raised e hends₂ => exact .raised e fun hall => hends₂ ((endsWithData_append hends).1 hall)
      · obtain ⟨-, hrequest⟩ := sendRequest_requestEnd c hpath hsent nofun
        cases hrequest with
        | raised _ hends =>
          cases h₂ with
          | raise =>
            rw [List.append_nil]
            exact .raised e hends
          | pending => exact absurd rfl hend

/-! ## A method -/

/-- A call ends in a value of the declared shape or in an error of the plugin. -/
def EndsWell {α : Type} (Shape : α → Prop) : Outcome PyError α → Prop
  | .returned a => Shape a
  | .raised e => IsMcritError e
  | .pending => True

/-- No answer has an unreadable status, and function entries are objects.  Of the entries of one id the
last counts, and none does when the last answer has no data. -/
def ClientCall.Answerable (rt : Runtime) (call : ClientCall) (tr : List (Event HttpI)) : Prop :=
  (∀ e ∈ tr, ¬ StatusFault e) ∧
    match call with
    | getFunctionsByIds _ => EndsWithData rt tr →
        ∀ e, IsLastEntry ((traceData rt tr).flatMap functionEntries) e → e.2.isDict = true
    | _ => True

theorem endsWell_iff {α : Type} {Shape : α → Prop} {out : Outcome PyError α} :
    EndsWell Shape out ↔
      (¬ ∃ e, out = .raised e ∧ IsForeign e) ∧ ∀ a, out = .returned a → Shape a := by
  cases out with
  | returned a => simp [EndsWell]
  | raised e => simp [EndsWell, IsForeign]
  | pending => simp [EndsWell]

theorem method_endsWell_iff (rt : Runtime) (c : CheckedClient) (call : ClientCall) {tr : List (Event HttpI)}
    {out : Outcome PyError call.Result} (h : Exec (methodOverHttp rt c.client (call.method rt)) tr out)
    (hend : out ≠ .pending) : EndsWell call.Shape out ↔ call.Answerable rt tr := by
  rw [endsWell_iff, ← (methodOverHttp_faultsAt rt c call).exec_iff h hend]
  have hstatus : (¬ ∃ e ∈ tr, StatusFault e) ↔ ∀ e ∈ tr, ¬ StatusFault e :=
    ⟨fun hnone e he hfault => hnone ⟨e, he, hfault⟩, fun hall ⟨e, he, hfault⟩ => hall e he hfault⟩
  rw [hstatus]
  by_cases hcall : ∃ ids, call = .getFunctionsByIds ids
  · obtain ⟨ids, rfl⟩ := hcall
    refine and_congr_right fun _ => ?_
    have hfunctions := fetchFunctions_functionsEnd c _ _ h hend
    cases hfunctions with
    | returned hends =>
      have hshape := entries_isDict_iff (traceData rt tr)
      constructor
      · exact fun hreturned _ => hshape.1 (hreturned _ rfl)
      · intro hlast a ha
        cases ha
        exact hshape.2 (hlast hends)
    | raised e hends => exact ⟨fun _ hall => absurd hall hends, fun _ => nofun⟩
  · have hshape := (method_returns rt call fun ids heq => hcall ⟨ids, heq⟩).inline
      (J := HttpI) fun r => (sendRequest rt c.client r).asExcept
    have hreturned : ∀ a, out = .returned a → call.Shape a := by
      rintro a rfl
      exact hshape.exec h
    unfold ClientCall.Answerable
    cases call with
    | getFunctionsByIds ids => exact absurd ⟨ids, rfl⟩ hcall
    | _ => exact ⟨fun hall => ⟨hall.1, trivial⟩, fun hall => ⟨hall.1, hreturned⟩⟩

end McritSimilarity

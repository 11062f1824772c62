import McritSimilarity.Lib.Inlined
import McritSimilarity.MalformedDocuments

/-!
# Requests on the wire

What `_request` sends.  `requestsOnTheWire`: a method over HTTP does exactly what it does over `_request`, with a
piece of the wire for each request: one attempt or more, all of them the same, of which each but the last is followed
by a delay and was answered by a failure that may pass.  The answer to the last one decides.  A read is attempted
three times at most; a write is sent once.
-/

set_option autoImplicit false

namespace McritSimilarity

open Python Prog

/-! ## Attempts -/

/-- A failure that may pass: a connection error other than a timeout, or a status of `_RETRY_STATUS`. -/
def Transient : Except SendError Response → Prop
  | .error e => e.connection = true ∧ ¬ e.timeout = true
  | .ok response => response.status ∈ retryStatus

instance : DecidablePred Transient := fun answer =>
  match answer with
  | .error _ => inferInstanceAs (Decidable (_ ∧ _))
  | .ok _ => inferInstanceAs (Decidable (_ ∈ _))

/-- The result of a request whose last attempt was answered so. -/
def decided (rt : Runtime) : Except SendError Response → Except PyError Json
  | .error e => .error (requestFailed e)
  | .ok response => handleResponse rt response

/-- The attempts at a request, from the one with a number on, while `left` more may follow it. -/
inductive Attempts (http : HttpRequest) : ℕ → ℕ → List (Event HttpI) → Except SendError Response → Prop where
  | last {left number : ℕ} {answer : Except SendError Response} (h : left = 0 ∨ ¬ Transient answer) :
    Attempts http left number [⟨.send http, answer⟩] answer
  | again {left number : ℕ} {tr : List (Event HttpI)} {answer decisive : Except SendError Response}
      (h : Transient answer) (hrest : Attempts http left (number + 1) tr decisive) :
    Attempts http (left + 1) number (⟨.send http, answer⟩ :: ⟨.retryDelay number, ()⟩ :: tr) decisive

/-- The requests that are sent. -/
def sends (tr : List (Event HttpI)) : List HttpRequest :=
  tr.filterMap fun
    | ⟨.send http, _⟩ => some http
    | ⟨.retryDelay _, _⟩ => none

/-- The attempts are the same request, and there are no more than may be. -/
theorem Attempts.sends {http : HttpRequest} {left number : ℕ} {tr : List (Event HttpI)}
    {answer : Except SendError Response} (h : Attempts http left number tr answer) :
    ∃ n ≤ left, sends tr = List.replicate (n + 1) http := by
  induction h with
  | last => exact ⟨0, Nat.zero_le _, rfl⟩
  | again _ _ ih =>
    obtain ⟨n, hn, hsends⟩ := ih
    exact ⟨n + 1, by omega, congrArg (_ :: ·) hsends⟩

section Loop

variable {rt : Runtime} {client : McritClient} {r : Request} {url : String}

/-- What is sent for a request. -/
def McritClient.httpRequest (client : McritClient) (r : Request) (url : String) : HttpRequest :=
  ⟨r.method, url, client.headers, client.timeout, false, r.body⟩

theorem answered_none (answer : Except SendError Response) :
    answered rt none answer = Prog.ofExcept (decided rt answer) := by
  cases answer <;> rfl

theorem answered_some (again : HttpProg Json) (answer : Except SendError Response) :
    answered rt (some again) answer = if Transient answer then again else Prog.ofExcept (decided rt answer) := by
  cases answer <;> rfl

/-- An attempt, and what the loop makes of its answer. -/
theorem exec_attemptOnce_iff (hurl : client.url r.path = .ok url) (again : Option (HttpProg Json))
    {tr : List (Event HttpI)} {out : Outcome PyError Json} (hend : out ≠ .pending) :
    Exec (attemptOnce rt client r again) tr out ↔ ∃ (answer : Except SendError Response) (tr' : List (Event HttpI)),
      tr = ⟨.send (client.httpRequest r url), answer⟩ :: tr' ∧ Exec (answered rt again answer) tr' out := by
  rw [attemptOnce, hurl]
  exact exec_call_iff hend

theorem exec_again_iff {number : ℕ} {again : HttpProg Json} {tr : List (Event HttpI)} {out : Outcome PyError Json}
    (hend : out ≠ .pending) : Exec (Prog.op (I := HttpI) (.retryDelay number) >>= fun _ => again) tr out ↔
      ∃ tr', tr = ⟨.retryDelay number, ()⟩ :: tr' ∧ Exec again tr' out := by
  refine (exec_call_iff hend).trans ?_
  exact ⟨fun ⟨_, tr', htr, h⟩ => ⟨tr', htr, h⟩, fun ⟨tr', htr, h⟩ => ⟨(), tr', htr, h⟩⟩

/-- The loop of `_request` makes the attempts, and the last one decides. -/
theorem exec_attemptLoop_iff (hurl : client.url r.path = .ok url) {left number : ℕ} {tr : List (Event HttpI)}
    {out : Outcome PyError Json} (hend : out ≠ .pending) : Exec (attemptLoop rt client r left number) tr out ↔
      ∃ answer, Attempts (client.httpRequest r url) left number tr answer ∧ out = .ofExcept (decided rt answer) := by
  induction left generalizing number tr with
  | zero =>
    rw [attemptLoop, exec_attemptOnce_iff hurl none hend]
    simp only [answered_none, exec_ofExcept_iff hend]
    constructor
    · rintro ⟨answer, tr', rfl, rfl, hout⟩
      exact ⟨answer, .last (.inl rfl), hout⟩
    · rintro ⟨answer, hattempts, hout⟩
      cases hattempts with
      | last => exact ⟨answer, [], rfl, rfl, hout⟩
  | succ left ih =>
    rw [attemptLoop, exec_attemptOnce_iff hurl _ hend]
    constructor
    · rintro ⟨answer, tr', rfl, h⟩
      rw [answered_some] at h
      split_ifs at h with htransient
      · obtain ⟨tr'', rfl, hrest⟩ := (exec_again_iff hend).1 h
        obtain ⟨decisive, hattempts, hout⟩ := ih.1 hrest
        exact ⟨decisive, .again htransient hattempts, hout⟩
      · obtain ⟨rfl, hout⟩ := (exec_ofExcept_iff hend).1 h
        exact ⟨answer, .last (.inr htransient), hout⟩
    · rintro ⟨answer, hattempts, hout⟩
      cases hattempts with
      | last h =>
        have htransient : ¬ Transient answer := h.resolve_left (Nat.succ_ne_zero left)
        refine ⟨answer, [], rfl, ?_⟩
        rw [answered_some, if_neg htransient, exec_ofExcept_iff hend]
        exact ⟨rfl, hout⟩
      | @again _ _ _ first _ htransient hrest =>
        refine ⟨first, _, rfl, ?_⟩
        rw [answered_some, if_pos htransient]
        exact (exec_again_iff hend).2 ⟨_, rfl, ih.2 ⟨_, hrest, hout⟩⟩

end Loop

/-! ## Methods -/

/-- The attempts that a request may have. -/
def Request.attempts (r : Request) : ℕ := if r.retry then retryAttempts else 1

/-- What is on the wire of a request with its result: the attempts, whose last answer decides. -/
def OnWire (rt : Runtime) (client : McritClient) (e : Event RequestI) (tr : List (Event HttpI)) : Prop :=
  ∃ (r : Request) (url : String) (answer : Except SendError Response), e = ⟨r, decided rt answer⟩ ∧
    client.url r.path = .ok url ∧ Attempts (client.httpRequest r url) (r.attempts - 1) 1 tr answer

/-- A request is sent once or more, and a write exactly once. -/
theorem OnWire.sends {rt : Runtime} {client : McritClient} {e : Event RequestI} {tr : List (Event HttpI)}
    (h : OnWire rt client e tr) : ∃ r url n, e.1 = r ∧ client.url r.path = .ok url ∧ n + 1 ≤ r.attempts ∧
      sends tr = List.replicate (n + 1) (client.httpRequest r url) := by
  obtain ⟨r, url, answer, rfl, hurl, hattempts⟩ := h
  obtain ⟨n, hn, hsends⟩ := hattempts.sends
  have hpos : 0 < r.attempts := by
    unfold Request.attempts
    split_ifs <;> decide
  exact ⟨r, url, n, rfl, hurl, by omega, hsends⟩

theorem exec_sendRequest_iff (rt : Runtime) (c : CheckedClient) {r : Request} (hr : HasRelativePath r)
    {tr : List (Event HttpI)} {result : Except PyError Json} :
    Exec ((sendRequest rt c.client r).asExcept : HttpProg (Except PyError Json)) tr (.returned result) ↔
      OnWire rt c.client ⟨r, result⟩ tr := by
  obtain ⟨server, apitoken, username, timeout, hclient⟩ := c.checked
  obtain ⟨parsed, hparsed, hscheme, -⟩ := newClient_origin hclient
  obtain ⟨url, hurl, -⟩ := originOf_url hparsed hscheme hr
  have hleft : (if r.retry then retryAttempts - 1 else 0) = r.attempts - 1 := by
    unfold Request.attempts
    split_ifs <;> rfl
  have hend : Outcome.ofExcept result ≠ .pending := by cases result <;> nofun
  rw [exec_asExcept_iff, sendRequest, hleft, exec_attemptLoop_iff hurl hend]
  constructor
  · rintro ⟨answer, hattempts, hout⟩
    exact ⟨r, url, answer, by rw [Outcome.ofExcept_injective hout], hurl, hattempts⟩
  · rintro ⟨r', url', answer, heq, hurl', hattempts⟩
    cases heq
    cases hurl.symm.trans hurl'
    exact ⟨answer, hattempts, rfl⟩

/-- The methods that change what the server has or begin work there; the others only read. -/
def ClientCall.IsWrite : ClientCall → Prop
  | addReport _ => True
  | exportCorpus => True
  | importCorpus _ => True
  | requestMatchesForSampleVs .. => True
  | requestMatchesForSample .. => True
  | _ => False

/-- A request, and then no other. -/
theorem exec_fetch {α : Type} {r : Request} {f : Json → RequestProg α}
    (hf : ∀ data, (f data).OnlyCalls fun _ => False) {tr : List (Event RequestI)} {out : Outcome PyError α}
    (h : Exec (fetch r >>= f) tr out) (hend : out ≠ .pending) : ∃ result, tr = [⟨r, result⟩] := by
  obtain ⟨result, tr', rfl, hrest⟩ := (exec_call_iff hend).1 h
  have hcalls : (Prog.ofExcept result >>= f : RequestProg α).OnlyCalls fun _ => False :=
    (onlyCalls_ofExcept result).bind hf
  have hnil : tr' = [] := List.eq_nil_iff_forall_not_mem.2 fun e he => hcalls.exec hrest e he
  exact ⟨result, by rw [hnil]⟩

/-- A write makes one request, without a retry. -/
theorem ClientCall.IsWrite.exec {rt : Runtime} {call : ClientCall} (hwrite : call.IsWrite)
    {tr : List (Event RequestI)} {out : Outcome PyError call.Result} (h : Exec (call.method rt) tr out)
    (hend : out ≠ .pending) : ∃ (r : Request) (result : Except PyError Json), r.retry = false ∧ tr = [⟨r, result⟩] := by
  have hfetch : ∀ {r : Request} {f : Json → RequestProg Json} {out : Outcome PyError Json}, r.retry = false →
      (∀ data, (f data).OnlyCalls fun _ => False) → Exec (fetch r >>= f) tr out → out ≠ .pending →
        ∃ (r : Request) (result : Except PyError Json), r.retry = false ∧ tr = [⟨r, result⟩] := by
    intro r f out hretry hf h hend
    obtain ⟨result, rfl⟩ := exec_fetch hf h hend
    exact ⟨r, result, hretry, rfl⟩
  have hif : ∀ {c : Prop} [Decidable c] {data : Json} {e : PyError},
      (if c then pure data else Prog.raise e : RequestProg Json).OnlyCalls fun _ => False := by
    intro c _ data e
    split_ifs <;> trivial
  have hplain : ∀ {r : Request} {out : Outcome PyError Json}, Exec (fetch r) tr out → r.retry = false →
      out ≠ .pending → ∃ (r : Request) (result : Except PyError Json), r.retry = false ∧ tr = [⟨r, result⟩] := by
    intro r out h hretry hend
    rw [← bind_ret (fetch r)] at h
    exact hfetch (f := ret) hretry (fun _ => trivial) h hend
  cases call with
  | addReport report => exact hfetch rfl (fun _ => hif) h hend
  | exportCorpus => exact hfetch rfl (fun _ => hif) h hend
  | importCorpus body => exact hfetch rfl (fun _ => hif) h hend
  | requestMatchesForSampleVs sampleId other minhash pichash bands force =>
    exact hplain h rfl hend
  | requestMatchesForSample sampleId minhash pichash bands force =>
    exact hplain h rfl hend
  | _ => exact hwrite.elim

/-- A method over HTTP is the method over `_request`, with the attempts at each request on the wire; a write is
sent exactly once. -/
theorem requestsOnTheWire (rt : Runtime) (c : CheckedClient) (call : ClientCall) {tr : List (Event HttpI)}
    {out : Outcome PyError call.Result} (hend : out ≠ .pending) :
    (Exec (methodOverHttp rt c.client (call.method rt)) tr out ↔
      ∃ requests : List (Inlined RequestI HttpI), tr = (requests.map Prod.snd).flatten ∧
        Exec (call.method rt) (requests.map Prod.fst) out ∧
          ∀ request ∈ requests, OnWire rt c.client request.1 request.2) ∧
    (call.IsWrite → Exec (methodOverHttp rt c.client (call.method rt)) tr out → ∃ http, sends tr = [http]) := by
  have hwire : Exec (methodOverHttp rt c.client (call.method rt)) tr out ↔
      ∃ requests : List (Inlined RequestI HttpI), tr = (requests.map Prod.snd).flatten ∧
        Exec (call.method rt) (requests.map Prod.fst) out ∧
          ∀ request ∈ requests, OnWire rt c.client request.1 request.2 := by
    refine (exec_inline_iff (I := RequestI) (J := HttpI) (fun _ _ _ => Exec.asExcept_ne_raised) hend).trans ?_
    refine exists_congr fun requests => and_congr_right fun htr => and_congr_right fun hexec => ?_
    have hpaths : ∀ e ∈ requests.map Prod.fst, HasRelativePath e.1 := (method_onlyCalls rt call).exec hexec
    refine forall₂_congr fun request hrequest => ?_
    exact exec_sendRequest_iff rt c (hpaths _ (List.mem_map_of_mem hrequest))
  refine ⟨hwire, fun hwrite h => ?_⟩
  obtain ⟨requests, rfl, hexec, hrequests⟩ := hwire.1 h
  obtain ⟨r, result, hretry, htr⟩ := hwrite.exec hexec hend
  obtain ⟨request, rfl, hrequest⟩ := List.map_eq_singleton_iff.1 htr
  obtain ⟨r', url, n, hr', hurl, hn, hsends⟩ := (hrequests request List.mem_cons_self).sends
  have hn' : n = 0 := by
    rw [hrequest] at hr'
    rw [← hr', Request.attempts, hretry] at hn
    simpa using hn
  refine ⟨c.client.httpRequest r' url, ?_⟩
  rw [List.map_singleton, List.flatten_singleton, hsends, hn']
  rfl

/-- A read that is answered after a retry. -/
theorem requestsOnTheWire_getVersion : ∃ tr,
    Exec (methodOverHttp plainRuntime remoteClient (ClientCall.getVersion.method plainRuntime)) tr (.returned none) ∧
      (sends tr).length = 2 := by
  have hurl : remoteClient.url "version" = .ok "https://mcrit.example/version" := by decide
  let http : HttpRequest := ⟨"GET", "https://mcrit.example/version", [], none, false, .none⟩
  let wire : List (Event HttpI) :=
    [⟨.send http, .ok ⟨503, none, ""⟩⟩, ⟨.retryDelay 1, ()⟩, ⟨.send http, .ok ⟨404, none, ""⟩⟩]
  have hattempts : Attempts http 2 1 wire (.ok ⟨404, none, ""⟩) := .again (by decide) (.last (.inr (by decide)))
  have honWire : OnWire plainRuntime remoteClient ⟨⟨"GET", "version", true, .none⟩, .ok .null⟩ wire :=
    ⟨⟨"GET", "version", true, .none⟩, _, _, rfl, hurl, hattempts⟩
  have hmethod : Exec (ClientCall.getVersion.method plainRuntime)
      [⟨⟨"GET", "version", true, .none⟩, .ok .null⟩] (.returned none) := .call _ (.ret _)
  have hreturned : (.returned none : Outcome PyError (Option String)) ≠ .pending := nofun
  refine ⟨wire, ?_, rfl⟩
  refine (requestsOnTheWire plainRuntime checkedRemote .getVersion hreturned).1.2
    ⟨[(⟨⟨"GET", "version", true, .none⟩, .ok .null⟩, wire)], rfl, hmethod, ?_⟩
  exact List.forall_mem_singleton.2 honWire

end McritSimilarity

import McritSimilarity.Connection
import McritSimilarity.Requests

/-!
# Where the token goes

Every request of a client with a token goes to the scheme, host and port of its server URL, which is
HTTPS or a loopback host (`tokenOrigin`).  The paths of all methods start with a fixed name, so the
reference that is joined to the server URL can be neither absolute nor another host's, whatever the ids
in it are.
-/

set_option autoImplicit false

namespace McritSimilarity

open Python Prog

/-! ## Origins -/

/-- The text of the port in a network location. -/
def portText (p : ParseResult) : List Char :=
  let (_, _, hostinfo) := rpartition '@' p.netloc
  let (_, bracket, bracketed) := partition '[' hostinfo
  if bracket then (partition ':' (partition ']' bracketed).2.2).2.2 else (partition ':' hostinfo).2.2

structure Origin where
  scheme : List Char
  host : Option String
  port : List Char
  deriving DecidableEq

/-- The scheme, host and port of a URL. -/
def originOf (url : String) : Option Origin :=
  (urlparse url).map fun p => ⟨p.scheme, p.hostname, portText p⟩

/-- A token may go there. -/
def Origin.IsSafe (o : Origin) : Prop := o.scheme = "https".toList ∨ ∃ host ∈ o.host, host ∈ loopbackHosts

def CarriesToken (r : HttpRequest) : Prop := "apitoken" ∈ r.headers.map Prod.fst

/-- What is sent follows no redirect, and takes the token to the origin of the server alone. -/
def StaysAtOrigin (server : String) : HttpOp → Prop
  | .send r => r.allowRedirects = false ∧
      (CarriesToken r → ∃ o : Origin, o.IsSafe ∧ originOf server = some o ∧ originOf r.url = some o)
  | _ => True

/-- What the constructor has checked. -/
theorem newClient_origin {server : String} {apitoken username : Option String} {timeout : Option ℤ}
    {client : McritClient} (h : newClient server apitoken username timeout = .ok client) :
    ∃ parsed, urlparse client.mcritServer = some parsed ∧ isHttpScheme parsed.scheme ∧
      (client.apitoken.isSome = true →
        Origin.IsSafe ⟨parsed.scheme, parsed.hostname, portText parsed⟩) := by
  obtain ⟨parsed, -, hparsed, -, htoken⟩ := newClient_cases h
  unfold parsedServer at hparsed
  cases hparse : urlparse client.mcritServer with
  | none =>
    rw [hparse] at hparsed
    cases hparsed
  | some parsed' =>
    simp only [hparse] at hparsed
    split_ifs at hparsed with hvalid
    cases hparsed
    have hscheme : isHttpScheme parsed.scheme := by
      by_contra hscheme
      exact hvalid (Or.inl hscheme)
    refine ⟨parsed, rfl, hscheme, fun hsome => ?_⟩
    by_cases hhttps : parsed.scheme = "https".toList
    · exact Or.inl hhttps
    · have hhttp := hscheme.resolve_right hhttps
      unfold checkToken isLoopback at htoken
      simp only [hparse, ok_bind] at htoken
      cases hhost : parsed.hostname with
      | none => simp [hhost, hsome, hhttp] at htoken
      | some host =>
        refine Or.inr ⟨host, rfl, ?_⟩
        by_contra hremote
        simp [hhost, hsome, hhttp, hremote] at htoken

/-! ## URLs of requests -/

theorem dropWhile_slash {path : List Char} (h : IsRelative path) :
    path.dropWhile (· = '/') = path := by
  obtain ⟨name, rest, rfl, hne, hname, -⟩ := h
  obtain ⟨c, cs, rfl⟩ := List.exists_cons_of_ne_nil hne
  have hc := lt_toNat_of_isAlpha (hname c (List.mem_cons_self ..))
  refine List.dropWhile_cons_of_neg ?_
  rw [decide_eq_true_eq]
  rintro rfl
  exact absurd hc (by decide)

/-- The URL of a relative path is at the origin of the server. -/
theorem originOf_url {client : McritClient} {parsed : ParseResult}
    (hparsed : urlparse client.mcritServer = some parsed) (hscheme : isHttpScheme parsed.scheme)
    {path : String} (hpath : IsRelative path.toList) :
    ∃ url, client.url path = .ok url ∧ originOf url = originOf client.mcritServer := by
  have htext : String.ofList (path.toList.dropWhile (· = '/')) = path := by
    rw [dropWhile_slash hpath, String.ofList_toList]
  obtain ⟨url, u, hjoin, hu, huscheme, hunetloc⟩ := urljoin_relative hparsed hscheme hpath
  refine ⟨url, ?_, ?_⟩
  · rw [McritClient.url, htext, hjoin]
  · rw [originOf, originOf, hu, hparsed, Option.map_some, Option.map_some]
    simp only [portText, ParseResult.hostname, ParseResult.hostinfo, huscheme, hunetloc]

/-- A text whose part before the first slash is a name. -/
def startsWithName (path : List Char) : Bool :=
  (partition '/' path).2.1 && (partition '/' path).1 ≠ [] && (partition '/' path).1.all Char.isAlpha

theorem eq_of_partition {sep : Char} {cs : List Char} (h : (partition sep cs).2.1 = true) :
    cs = (partition sep cs).1 ++ sep :: (partition sep cs).2.2 := by
  induction cs with
  | nil => cases h
  | cons c cs ih =>
    rw [partition] at h ⊢
    split_ifs at h ⊢ with hc
    · rw [hc]
      rfl
    · exact congrArg (c :: ·) (ih h)

theorem isRelative_append {start : String} (h : startsWithName start.toList = true) (rest : String) :
    IsRelative (start ++ rest).toList := by
  simp only [startsWithName, Bool.and_eq_true, decide_eq_true_eq, ne_eq, List.all_eq_true] at h
  obtain ⟨⟨hfound, hne⟩, hname⟩ := h
  refine ⟨_, '/' :: ((partition '/' start.toList).2.2 ++ rest.toList), ?_, hne, hname,
    fun c hc => (Option.some.inj hc).symm⟩
  rw [String.toList_append, ← List.cons_append, ← List.append_assoc, ← eq_of_partition hfound]

theorem isRelative_name (name : String) (hne : name.toList ≠ []) (h : name.toList.all Char.isAlpha = true) :
    IsRelative name.toList :=
  ⟨name.toList, [], (List.append_nil _).symm, hne, List.all_eq_true.1 h, nofun⟩

/-! ## Requests of a method -/

/-- A call of a public method of a client. -/
inductive ClientCall where
  | getVersion
  | getSampleBySha256 (sampleSha256 : String)
  | addReport (smdaReport : Upload)
  | getJobData (jobId : String)
  | getResult (resultId : String) (compact : Bool)
  | getResultForJob (jobId : String) (compact : Bool)
  | getJobs (method : String) (sampleId : ℤ)
  | exportCorpus
  | importCorpus (body : List UInt8)
  | getFunctionsByIds (functionIds : List ℤ)
  | requestMatchesForSampleVs (sampleId otherSampleId : ℤ)
      (minhashThreshold pichashSize bandMatchesRequired : Option ℤ) (forceRecalculation : Bool)
  | requestMatchesForSample (sampleId : ℤ) (minhashThreshold pichashSize bandMatchesRequired : Option ℤ)
      (forceRecalculation : Bool)

@[reducible] def ClientCall.Result : ClientCall → Type
  | getVersion => Option String
  | getSampleBySha256 _ => Option Json
  | addReport _ => Json
  | getJobData _ => Option Json
  | getResult _ _ => Json
  | getResultForJob _ _ => Json
  | getJobs _ _ => List Json
  | exportCorpus => Json
  | importCorpus _ => Json
  | getFunctionsByIds _ => OrderedMap ℤ Json
  | requestMatchesForSampleVs .. => Json
  | requestMatchesForSample .. => Json

/-- The method that is called. -/
def ClientCall.method (rt : Runtime) : (call : ClientCall) → RequestProg call.Result
  | getVersion => McritClient.getVersion rt
  | getSampleBySha256 sha256 => McritClient.getSampleBySha256 sha256
  | addReport report => McritClient.addReport report
  | getJobData jobId => McritClient.getJobData jobId
  | getResult resultId compact => McritClient.getResult resultId compact
  | getResultForJob jobId compact => McritClient.getResultForJob jobId compact
  | getJobs method sampleId => McritClient.getJobs method sampleId
  | exportCorpus => McritClient.exportCorpus
  | importCorpus body => McritClient.importCorpus body
  | getFunctionsByIds ids => McritClient.getFunctionsByIds ids
  | requestMatchesForSampleVs sampleId other minhash pichash bands force =>
    McritClient.requestMatchesForSampleVs sampleId other minhash pichash bands force
  | requestMatchesForSample sampleId minhash pichash bands force =>
    McritClient.requestMatchesForSample sampleId minhash pichash bands force

/-- The path of a request is relative. -/
def HasRelativePath (r : Request) : Prop := IsRelative r.path.toList

theorem fetch_onlyCalls {P : Request → Prop} {r : Request} (h : P r) : (fetch r).OnlyCalls P :=
  .bind (onlyCalls_op (I := RequestI) h) fun _ => onlyCalls_ofExcept _

theorem fetchFunctions_onlyCalls (chunks : List (List ℤ)) (mapped : OrderedMap ℤ Json) :
    (fetchFunctions chunks mapped).OnlyCalls HasRelativePath := by
  induction chunks generalizing mapped with
  | nil => trivial
  | cons chunk chunks ih =>
    exact .bind (fetch_onlyCalls (isRelative_name "functions" (by decide) (by decide))) fun _ => ih _

theorem method_onlyCalls (rt : Runtime) (call : ClientCall) : (call.method rt).OnlyCalls HasRelativePath := by
  have hif : ∀ {α : Type} {c : Prop} [Decidable c] {p q : RequestProg α}, p.OnlyCalls HasRelativePath →
      q.OnlyCalls HasRelativePath → (if c then p else q).OnlyCalls HasRelativePath := by
    intro α c _ p q hp hq
    split_ifs
    · exact hp
    · exact hq
  cases call with
  | getVersion => exact .bind (fetch_onlyCalls (isRelative_name "version" (by decide) (by decide))) fun _ => trivial
  | getSampleBySha256 sha256 => exact .bind (fetch_onlyCalls (isRelative_append (by decide) _)) fun _ => trivial
  | addReport report =>
    exact .bind (fetch_onlyCalls (isRelative_name "samples" (by decide) (by decide))) fun _ => hif trivial trivial
  | getJobData jobId => exact .bind (fetch_onlyCalls (isRelative_append (by decide) _)) fun _ => trivial
  | getResult resultId compact =>
    refine fetch_onlyCalls ?_
    show IsRelative _
    rw [String.append_assoc]
    exact isRelative_append (by decide) _
  | getResultForJob jobId compact =>
    refine fetch_onlyCalls ?_
    show IsRelative _
    rw [String.append_assoc, String.append_assoc]
    exact isRelative_append (by decide) _
  | getJobs method sampleId =>
    exact .bind (fetch_onlyCalls (isRelative_name "jobs" (by decide) (by decide))) fun _ => trivial
  | exportCorpus =>
    exact .bind (fetch_onlyCalls (isRelative_name "export" (by decide) (by decide))) fun _ => hif trivial trivial
  | importCorpus body =>
    exact .bind (fetch_onlyCalls (isRelative_name "import" (by decide) (by decide))) fun _ => hif trivial trivial
  | getFunctionsByIds ids => exact fetchFunctions_onlyCalls _ _
  | requestMatchesForSampleVs sampleId other minhash pichash bands force =>
    refine fetch_onlyCalls ?_
    show IsRelative _
    rw [String.append_assoc, String.append_assoc]
    exact isRelative_append (by decide) _
  | requestMatchesForSample sampleId minhash pichash bands force =>
    exact fetch_onlyCalls (isRelative_append (by decide) _)

/-! ## Redirects -/

/-- A request is answered by a redirect. -/
def IsRedirect (e : Event HttpI) : Prop :=
  ∃ r response, e = ⟨.send r, .ok response⟩ ∧ response.status ∈ ([301, 302, 303, 307, 308] : List ℤ)

/-- The error of a request ends the method. -/
def IsError (e : Event RequestI) : Prop := ∃ r error, e = ⟨r, .error error⟩

theorem fetch_endsAt {α : Type} {r : Request} {f : Json → RequestProg α} (hf : ∀ data, (f data).EndsAt IsError) :
    (fetch r >>= f).EndsAt IsError := by
  intro a
  cases a with
  | ok data => exact ⟨(fun ⟨r', error, heq⟩ => nomatch heq), hf data⟩
  | error e => exact ⟨fun _ => ⟨e, rfl⟩, trivial⟩

theorem fetchFunctions_endsAt (chunks : List (List ℤ)) (mapped : OrderedMap ℤ Json) :
    (fetchFunctions chunks mapped).EndsAt IsError := by
  induction chunks generalizing mapped with
  | nil => trivial
  | cons chunk chunks ih => exact fetch_endsAt fun _ => ih _

theorem method_endsAt (rt : Runtime) (call : ClientCall) : (call.method rt).EndsAt IsError := by
  have hif : ∀ {α : Type} {c : Prop} [Decidable c] {p q : RequestProg α}, p.EndsAt IsError →
      q.EndsAt IsError → (if c then p else q).EndsAt IsError := by
    intro α c _ p q hp hq
    split_ifs
    · exact hp
    · exact hq
  have hret : ∀ r : Request, (fetch r).EndsAt IsError := by
    intro r
    rw [← bind_ret (fetch r)]
    exact fetch_endsAt fun _ => trivial
  cases call with
  | getFunctionsByIds ids => exact fetchFunctions_endsAt _ _
  | addReport report => exact fetch_endsAt fun _ => hif trivial trivial
  | exportCorpus => exact fetch_endsAt fun _ => hif trivial trivial
  | importCorpus body => exact fetch_endsAt fun _ => hif trivial trivial
  | getVersion => exact fetch_endsAt fun _ => trivial
  | getSampleBySha256 sha256 => exact fetch_endsAt fun _ => trivial
  | getJobData jobId => exact fetch_endsAt fun _ => trivial
  | getJobs method sampleId => exact fetch_endsAt fun _ => trivial
  | _ => exact hret _

/-! ## `_request` -/

theorem mem_headers {client : McritClient} (h : "apitoken" ∈ client.headers.map Prod.fst) :
    client.apitoken.isSome = true := by
  cases htoken : client.apitoken with
  | some token => rfl
  | none =>
    simp only [McritClient.headers, htoken, Option.map_none, Option.toList_none, List.nil_append] at h
    cases hname : client.username with
    | none => simp [hname] at h
    | some name => simp [hname] at h

theorem handleResponse_redirect (rt : Runtime) {response : Response}
    (h : response.status ∈ ([301, 302, 303, 307, 308] : List ℤ)) :
    ∃ e, handleResponse rt response = .error e := by
  unfold handleResponse
  dsimp only
  rw [if_neg, if_pos h]
  · exact ⟨_, rfl⟩
  · simp only [List.mem_cons, List.not_mem_nil, or_false] at h ⊢
    omega

/-- Behind a redirect there is only the error. -/
theorem attemptOnce_endsAt (rt : Runtime) (client : McritClient) (r : Request) {again : Option (HttpProg Json)}
    (hagain : ∀ p ∈ again, p.EndsAt IsRedirect) : (attemptOnce rt client r again).EndsAt IsRedirect := by
  unfold attemptOnce
  cases client.url r.path with
  | error e => trivial
  | ok url =>
    intro answer
    have hrest : (answered rt again answer).EndsAt IsRedirect := by
      have hdone : ∀ result : Except PyError Json, (Prog.ofExcept result : HttpProg Json).EndsAt IsRedirect := by
        intro result
        cases result <;> trivial
      cases answer with
      | error e =>
        cases again with
        | none => trivial
        | some p =>
          simp only [answered]
          split_ifs
          · exact hagain p rfl
          · trivial
      | ok response =>
        cases again with
        | none => exact hdone _
        | some p =>
          simp only [answered]
          split_ifs
          · exact hagain p rfl
          · exact hdone _
    refine ⟨?_, hrest⟩
    rintro ⟨r', response, heq, hstatus⟩
    cases heq
    obtain ⟨e, he⟩ := handleResponse_redirect rt hstatus
    have hretry : response.status ∉ retryStatus := by
      simp only [retryStatus, List.mem_cons, List.not_mem_nil, or_false] at hstatus ⊢
      omega
    refine ⟨e, ?_⟩
    show answered rt again (.ok response) = .raise e
    cases again with
    | none => rw [answered, he]; rfl
    | some p => rw [answered, if_neg hretry, he]; rfl

theorem attemptLoop_endsAt (rt : Runtime) (client : McritClient) (r : Request) (left number : ℕ) :
    (attemptLoop rt client r left number).EndsAt IsRedirect := by
  induction left generalizing number with
  | zero => exact attemptOnce_endsAt rt client r nofun
  | succ left ih =>
    refine attemptOnce_endsAt rt client r fun p hp => ?_
    cases hp
    exact fun _ => ⟨(fun ⟨r', response, heq, _⟩ => nomatch heq), ih _⟩

section Origin

variable {client : McritClient} {parsed : ParseResult}

theorem attemptOnce_onlyCalls (rt : Runtime) (hparsed : urlparse client.mcritServer = some parsed)
    (hscheme : isHttpScheme parsed.scheme) (hsafe : client.apitoken.isSome = true →
      Origin.IsSafe ⟨parsed.scheme, parsed.hostname, portText parsed⟩) {r : Request} (hr : HasRelativePath r)
    {again : Option (HttpProg Json)} (hagain : ∀ p ∈ again, p.OnlyCalls (StaysAtOrigin client.mcritServer)) :
    (attemptOnce rt client r again).OnlyCalls (StaysAtOrigin client.mcritServer) := by
  obtain ⟨url, hurl, horigin⟩ := originOf_url hparsed hscheme hr
  have hserver : originOf client.mcritServer = some ⟨parsed.scheme, parsed.hostname, portText parsed⟩ := by
    rw [originOf, hparsed, Option.map_some]
  unfold attemptOnce
  rw [hurl]
  refine ⟨⟨rfl, fun htoken => ⟨_, hsafe (mem_headers htoken), hserver, horigin.trans hserver⟩⟩, fun answer => ?_⟩
  cases answer with
  | error e =>
    cases again with
    | none => trivial
    | some p =>
      show (answered rt (some p) (.error e)).OnlyCalls _
      simp only [answered]
      split_ifs
      · exact hagain p rfl
      · trivial
  | ok response =>
    cases again with
    | none => exact onlyCalls_ofExcept _
    | some p =>
      show (answered rt (some p) (.ok response)).OnlyCalls _
      simp only [answered]
      split_ifs
      · exact hagain p rfl
      · exact onlyCalls_ofExcept _

theorem attemptLoop_onlyCalls (rt : Runtime) (hparsed : urlparse client.mcritServer = some parsed)
    (hscheme : isHttpScheme parsed.scheme) (hsafe : client.apitoken.isSome = true →
      Origin.IsSafe ⟨parsed.scheme, parsed.hostname, portText parsed⟩) {r : Request} (hr : HasRelativePath r)
    (left number : ℕ) : (attemptLoop rt client r left number).OnlyCalls (StaysAtOrigin client.mcritServer) := by
  induction left generalizing number with
  | zero => exact attemptOnce_onlyCalls rt hparsed hscheme hsafe hr nofun
  | succ left ih =>
    refine attemptOnce_onlyCalls rt hparsed hscheme hsafe hr fun p hp => ?_
    cases hp
    exact ⟨trivial, fun _ => ih _⟩

end Origin

/-! ## The token -/

/-- Whatever a method is called with and whatever is answered, each request with the token goes to the
origin of the server, which is HTTPS or a loopback host, and a redirect is the end of the method. -/
theorem tokenOrigin (rt : Runtime) {server : String} {apitoken username : Option String} {timeout : Option ℤ}
    {client : McritClient} (h : newClient server apitoken username timeout = .ok client) (call : ClientCall) :
    (methodOverHttp rt client (call.method rt)).OnlyCalls (StaysAtOrigin client.mcritServer) ∧
      ∀ tr out before e after, Exec (methodOverHttp rt client (call.method rt)) tr out →
        tr = before ++ e :: after → IsRedirect e → after = [] ∧ ∀ result, out ≠ .returned result := by
  obtain ⟨parsed, hparsed, hscheme, hsafe⟩ := newClient_origin h
  refine ⟨(method_onlyCalls rt call).inline fun r hr =>
    (attemptLoop_onlyCalls rt hparsed hscheme hsafe hr _ _).asExcept, fun tr out before e after hexec htr he => ?_⟩
  have hends : (methodOverHttp rt client (call.method rt)).EndsAt IsRedirect := by
    refine (method_endsAt rt call).inline fun r => ?_
    refine (attemptLoop_endsAt rt client r _ _).asExcept.mono ?_
    rintro _ ⟨e, rfl⟩
    exact ⟨r, e, rfl⟩
  exact hends.exec hexec htr he

/-- A result id that looks like another host's URL. -/
theorem tokenOrigin_remoteServer : ∃ client,
    newClient remoteServer (some "secret") none (some 30) = .ok client ∧
      (methodOverHttp ⟨fun _ => none, fun _ => ""⟩ client
        (ClientCall.method ⟨fun _ => none, fun _ => ""⟩ (.getResult "//evil.example:80/?x#y" true))).OnlyCalls
          (StaysAtOrigin client.mcritServer) := by
  obtain ⟨client, hclient⟩ := newClient_remoteServer (some "secret") none (some 30)
  exact ⟨client, hclient, (tokenOrigin _ hclient (.getResult "//evil.example:80/?x#y" true)).1⟩

end McritSimilarity

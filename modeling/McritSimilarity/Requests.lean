import McritSimilarity.Python.UrlJoin
import McritSimilarity.Samples

/-!
# Requests

The public methods of `McritClient` are programs over `RequestI`, whose only operation is `_request`;
`sendRequest` is `_request` itself, over `HttpI`: the requests that are sent and the delays.
`methodOverHttp` puts the two together.
-/

set_option autoImplicit false

namespace McritSimilarity

open Python

/-! ## HTTP -/

/-- The keyword arguments `params`, `json` and `data`. -/
inductive RequestBody where
  | none
  | params (query : List (String × Json))
  | json (payload : Upload)
  | data (text : String)
  | bytes (content : List UInt8)

/-- What `_send` is given. -/
structure HttpRequest where
  method : String
  url : String
  headers : List (String × String)
  timeout : Option ℤ
  allowRedirects : Bool
  body : RequestBody

structure Response where
  status : ℤ
  /-- `response.json()`; `none` where it raises. -/
  json : Option Json
  text : String

/-- A `requests.RequestException`: whether it is a `ConnectionError`, a `Timeout`, and its text. -/
structure SendError where
  connection : Bool
  timeout : Bool
  text : String

inductive HttpOp where
  | send (r : HttpRequest)
  | retryDelay (attempt : ℕ)

@[reducible] def HttpOp.Ans : HttpOp → Type
  | send _ => Except SendError Response
  | retryDelay _ => Unit

def HttpI : Interface := ⟨HttpOp, HttpOp.Ans⟩

abbrev HttpProg (α : Type) := Prog HttpI PyError α

/-! ## Answers -/

def httpError (message : String) : PyError := .mcrit .http message

/-- `status in _SUCCESS`, a set of strings. -/
def inSuccess : Json → Except BuiltinError Bool
  | .str s => .ok (s = "successful")
  | .list _ => .error .typeError
  | .dict _ => .error .typeError
  | _ => .ok false

variable (rt : Runtime)

/-- The detail of a rejected request. -/
def errorDetail (r : Response) : String :=
  match r.json with
  | some (.dict members) =>
    let body := Json.dict members
    rt.str ((field body "message").orElse ((field body "error").orElse (.str (rt.str body))))
  | some _ => "Bad Request"
  | none => if r.text = "" then "Bad Request" else r.text

/-- The detail of a failure that the server reports. -/
def failureDetail (payload : Json) : String :=
  rt.str (((field payload "message").orElse (field (field payload "data") "message")).orElse
    (.str "no details"))

/-- The data in the envelope of an answer. -/
def payloadData (payload : Json) : Except PyError Json :=
  if ¬ payload.isDict then .ok payload
  else if (field payload "status").eqStr "failed" then
    .error (httpError ("MCRIT reported a failure: " ++ failureDetail rt payload))
  else do
    let success ← uncaught (inSuccess (field payload "status"))
    -- Job envelopes sometimes omit the status.
    return if success ∨ payload.hasKey "data" then field payload "data" else payload

/-- `_handle_response`. -/
def handleResponse (r : Response) : Except PyError Json :=
  let status := toString r.status
  if r.status ∈ [401, 403] then .error (.mcrit .auth ("MCRIT rejected the request (HTTP " ++ status ++
    "); check the API token. Uploading samples through mcritweb requires a contributor or admin token."))
  else if r.status ∈ [301, 302, 303, 307, 308] then
    .error (httpError ("MCRIT server returned unexpected redirect HTTP " ++ status))
  else if r.status ∈ [404, 410] then .ok .null
  else if r.status = 400 then .error (httpError ("MCRIT rejected request (HTTP 400): " ++
    String.ofList ((errorDetail rt r).toList.take 500)))
  else if r.status ≥ 500 then .error (httpError ("MCRIT server error HTTP " ++ status))
  else if r.status ∉ [200, 202] then .error (httpError ("Unexpected MCRIT status HTTP " ++ status))
  else match r.json with
    | none => .error (httpError "MCRIT returned a non-JSON body")
    | some payload => payloadData rt payload

/-! ## `_request` -/

/-- The arguments of `_request`. -/
structure Request where
  method : String
  path : String
  retry : Bool := false
  body : RequestBody := .none

namespace McritClient

/-- `self.headers`. -/
def headers (client : McritClient) : List (String × String) :=
  (client.apitoken.map fun token => ("apitoken", token)).toList ++
    (client.username.map fun name => ("username", name)).toList

/-- `_url`. -/
def url (client : McritClient) (path : String) : Except PyError String :=
  match urljoin client.mcritServer (String.ofList (path.toList.dropWhile (· = '/'))) with
  | some url => .ok url
  | none => .error (.builtin .valueError)

end McritClient

/-- `_RETRY_STATUS`. -/
def retryStatus : List ℤ := [502, 503, 504]

/-- `_RETRY_ATTEMPTS`. -/
def retryAttempts : ℕ := 3

def requestFailed (e : SendError) : PyError := .mcrit .unavailable ("MCRIT request failed: " ++ e.text)

/-- What an attempt makes of its answer; `again` waits and goes on, and the last attempt has none. -/
def answered (again : Option (HttpProg Json)) : Except SendError Response → HttpProg Json
  | .error e =>
    match again with
    | some again => if e.connection ∧ ¬ e.timeout then again else Prog.raise (requestFailed e)
    | none => Prog.raise (requestFailed e)
  | .ok response =>
    match again with
    | some again =>
      if response.status ∈ retryStatus then again else Prog.ofExcept (handleResponse rt response)
    | none => Prog.ofExcept (handleResponse rt response)

/-- One round of the loop of `_request`. -/
def attemptOnce (client : McritClient) (r : Request) (again : Option (HttpProg Json)) : HttpProg Json := do
  let url ← Prog.ofExcept (client.url r.path)
  let answer ← Prog.op (I := HttpI) (.send ⟨r.method, url, client.headers, client.timeout, false, r.body⟩)
  answered rt again answer

/-- The loop of `_request`, by the attempts that are left after this one. -/
def attemptLoop (client : McritClient) (r : Request) : ℕ → ℕ → HttpProg Json
  | 0, _ => attemptOnce rt client r none
  | left + 1, number => attemptOnce rt client r (some do
      Prog.op (I := HttpI) (.retryDelay number)
      attemptLoop client r left (number + 1))

/-- `_request`. -/
def sendRequest (client : McritClient) (r : Request) : HttpProg Json :=
  attemptLoop rt client r (if r.retry then retryAttempts - 1 else 0) 1

/-! ## The methods -/

def RequestI : Interface := ⟨Request, fun _ => Except PyError Json⟩

abbrev RequestProg (α : Type) := Prog RequestI PyError α

def fetch (r : Request) : RequestProg Json := Prog.op (I := RequestI) r >>= Prog.ofExcept

/-- `data if isinstance(data, dict) else None`. -/
def dictOrNone (data : Json) : Option Json := if data.isDict then some data else none

/-- `_FUNCTION_BATCH`. -/
def functionBatch : ℕ := 500

/-- The slices of `range(0, len(function_ids), _FUNCTION_BATCH)`. -/
def functionBatches (ids : List ℤ) : List (List ℤ) :=
  (List.range ((ids.length + functionBatch - 1) / functionBatch)).map fun i =>
    (ids.drop (i * functionBatch)).take functionBatch

/-- The body of a function request. -/
def idsText (ids : List ℤ) : String := String.intercalate "," (ids.map toString)

/-- `mapped[int(key)] = value` for the members of an answer. -/
def addFunctions (mapped : OrderedMap ℤ Json) : Json → OrderedMap ℤ Json
  | .dict members => members.foldl (fun mapped m =>
      match intOfText m.1 with
      | some fid => mapped.put fid m.2
      | none => mapped) mapped
  | _ => mapped

/-- The loop of `get_functions_by_ids`. -/
def fetchFunctions : List (List ℤ) → OrderedMap ℤ Json → RequestProg (OrderedMap ℤ Json)
  | [], mapped => pure mapped
  | chunk :: chunks, mapped => do
    let data ← fetch ⟨"POST", "functions", true, .data (idsText chunk)⟩
    fetchFunctions chunks (addFunctions mapped data)

/-- `_matching_params`. -/
def matchingQuery (minhashThreshold pichashSize bandMatchesRequired : Option ℤ)
    (forceRecalculation : Bool) : List (String × Json) :=
  (minhashThreshold.map fun n => ("minhash_score", .int n)).toList ++
    (pichashSize.map fun n => ("pichash_size", .int n)).toList ++
    (bandMatchesRequired.map fun n => ("band_matches_required", .int n)).toList ++
    if forceRecalculation then [("force_recalculation", .bool true)] else []

/-- The `compact` parameter of the result methods. -/
def compactQuery (compact : Bool) : String := if compact then "?compact=True" else ""

namespace McritClient

def getVersion : RequestProg (Option String) := do
  let data ← fetch ⟨"GET", "version", true, .none⟩
  return if (field data "version").isNull then none else some (rt.str (field data "version"))

def getSampleBySha256 (sampleSha256 : String) : RequestProg (Option Json) := do
  let data ← fetch ⟨"GET", "samples/sha256/" ++ sampleSha256, true, .none⟩
  return dictOrNone data

def addReport (smdaReport : Upload) : RequestProg Json := do
  let data ← fetch ⟨"POST", "samples", false, .json smdaReport⟩
  if data.isDict ∧ data.hasKey "sample_info" then pure data
  else Prog.raise (httpError "MCRIT addReport did not return sample_info")

def getJobData (jobId : String) : RequestProg (Option Json) := do
  let data ← fetch ⟨"GET", "jobs/" ++ jobId, true, .none⟩
  return dictOrNone data

def getResult (resultId : String) (compact : Bool := false) : RequestProg Json :=
  fetch ⟨"GET", "results/" ++ resultId ++ compactQuery compact, true, .none⟩

def getResultForJob (jobId : String) (compact : Bool := false) : RequestProg Json :=
  fetch ⟨"GET", "jobs/" ++ jobId ++ "/result" ++ compactQuery compact, true, .none⟩

def getJobs (method : String) (sampleId : ℤ) : RequestProg (List Json) := do
  let data ← fetch ⟨"GET", "jobs", true,
    .params [("method", .str method), ("sample_ids", .str (toString sampleId))]⟩
  return match data with
    | .list jobs => jobs.filter Json.isDict
    | _ => []

def exportCorpus : RequestProg Json := do
  let data ← fetch ⟨"GET", "export", false, .params [("compress", .str "true")]⟩
  if data.isDict then pure data else Prog.raise (httpError "MCRIT export returned no data")

def importCorpus (body : List UInt8) : RequestProg Json := do
  let data ← fetch ⟨"POST", "import", false, .bytes body⟩
  if data.isDict then pure data
  else Prog.raise (httpError
    "MCRIT refused the import: the export comes from an incompatible MCRIT configuration")

def getFunctionsByIds (functionIds : List ℤ) : RequestProg (OrderedMap ℤ Json) :=
  fetchFunctions (functionBatches functionIds) .empty

def requestMatchesForSampleVs (sampleId otherSampleId : ℤ)
    (minhashThreshold pichashSize bandMatchesRequired : Option ℤ) (forceRecalculation : Bool := false) :
    RequestProg Json :=
  fetch ⟨"GET", "matches/sample/" ++ toString sampleId ++ "/" ++ toString otherSampleId, false,
    .params (matchingQuery minhashThreshold pichashSize bandMatchesRequired forceRecalculation)⟩

def requestMatchesForSample (sampleId : ℤ) (minhashThreshold pichashSize bandMatchesRequired : Option ℤ)
    (forceRecalculation : Bool := false) : RequestProg Json :=
  fetch ⟨"GET", "matches/sample/" ++ toString sampleId, false,
    .params (matchingQuery minhashThreshold pichashSize bandMatchesRequired forceRecalculation)⟩

end McritClient

/-- The method behind a request of `jobs.py`, `samples.py` and the provider. -/
def clientMethod : (o : ServerOp) → RequestProg o.Result
  | .getJobs method sampleId => McritClient.getJobs method sampleId
  | .getSampleBySha256 sha256 => McritClient.getSampleBySha256 sha256
  | .addReport upload => McritClient.addReport upload
  | .getJobData jobId => McritClient.getJobData jobId
  | .getResult resultId => McritClient.getResult resultId
  | .getResultForJob jobId => McritClient.getResultForJob jobId
  | .requestMatchesForSampleVs sampleId other params =>
    McritClient.requestMatchesForSampleVs sampleId other (some params.minhashThreshold)
      (some params.pichashSize) (some params.bandMatchesRequired)
  | .requestMatchesForSample sampleId params force =>
    McritClient.requestMatchesForSample sampleId (some params.minhashThreshold)
      (some params.pichashSize) (some params.bandMatchesRequired) force
  | .getFunctionsByIds ids => McritClient.getFunctionsByIds ids

/-! ## Over HTTP -/

/-- A method with `_request` behind it. -/
def methodOverHttp {α : Type} (client : McritClient) (p : RequestProg α) : HttpProg α :=
  p.inline (J := HttpI) fun r => (sendRequest rt client r).asExcept

end McritSimilarity

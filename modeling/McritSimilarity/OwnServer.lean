import McritSimilarity.CorpusExport
import McritSimilarity.Lib.Protocol
import McritSimilarity.VisitCalls

/-!
# Whose server a request reaches

The process may use the built-in server and others side by side.  `requestsReachTheirServer`: all requests of a
command or visit go through one client, that of its own configuration.  For the built-in server it is the client of
the endpoint that the process has started, which is the same for all of them.
-/

set_option autoImplicit false

namespace McritSimilarity

open Python Prog

/-- The client that a request goes through. -/
def ProcessOp.client? : ProcessOp → Option McritClient
  | .visit (.server client _) => some client
  | .getVersion client => some client
  | .importFile client _ => some client
  | .exportCorpus client => some client
  | _ => none

def Command.config : Command → ProviderConfig
  | .visit _ _ _ config => config
  | .checkConnection config => config
  | .importCorpus config _ => config
  | .exportCorpus config _ => config

/-- The client is that of the configuration, for the built-in server with its endpoint. -/
structure Routed (config : ProviderConfig) (endpoint : Option Endpoint) (client : McritClient) : Prop where
  builtin : isBuiltin config.server = true → ∃ e, endpoint = some e ∧ clientFor (withEndpoint config e) = .ok client
  remote : isBuiltin config.server = false → clientFor config = .ok client

/-- What is known of the built-in server after a call of `endpoint`. -/
@[irreducible] def learnEndpoint (config : ProviderConfig) (known : Option Endpoint) :
    Except PyError Endpoint → Option Endpoint
  | .ok e => if isBuiltin config.server then known.or (some e) else known
  | .error _ => known

section Routed

variable {config : ProviderConfig} {client : McritClient}

theorem Routed.mono {endpoint endpoint' : Option Endpoint} (h : Routed config endpoint client)
    (hle : ∀ e, endpoint = some e → endpoint' = some e) : Routed config endpoint' client where
  builtin := fun hbuiltin => by
    obtain ⟨e, he, hclient⟩ := h.builtin hbuiltin
    exact ⟨e, hle e he, hclient⟩
  remote := h.remote

/-- Once there is a client nothing more is learnt. -/
theorem Routed.learnEndpoint_eq {known : Option Endpoint} (h : Routed config known client)
    (result : Except PyError Endpoint) : learnEndpoint config known result = known := by
  unfold learnEndpoint
  cases result with
  | error e => rfl
  | ok e =>
    cases hbuiltin : isBuiltin config.server with
    | true =>
      obtain ⟨e', rfl, -⟩ := h.builtin hbuiltin
      rfl
    | false => rfl

theorem learnEndpoint_none (hbuiltin : isBuiltin config.server = true) (e : Endpoint) :
    learnEndpoint config none (.ok e) = some e := by
  unfold learnEndpoint
  simp only [hbuiltin, if_true, Option.none_or]

end Routed

/-! ## What a visit asks -/

section Visit

variable {rt : Runtime} {fuel : ℕ} {config : ProviderConfig} {client : McritClient}

/-- Requests go through the given client. -/
def RequestsTo (client : McritClient) (o : VisitOp) : Prop := ∀ c o', o = .server c o' → c = client

theorem requestsTo_of_ne {o : VisitOp} (h : ¬ o.IsServer) : RequestsTo client o := by
  rintro c o' rfl
  exact absurd trivial h

theorem requestsTo_ambient : Ambient (RequestsTo client) := fun _ ho _ _ => requestsTo_of_ne ho

theorem requestsTo_caches : Caches (RequestsTo client) := by
  intro o ho
  cases o with
  | server c o => exact ho.elim
  | _ => exact requestsTo_of_ne id

theorem onServer_requestsTo {α : Type} (start stop : ℚ) (p : SampleProg α) :
    (onServer client start stop p).OnlyCalls (RequestsTo client) := by
  refine (onlyCalls_true p).lift fun o _ => ?_
  cases o with
  | server o =>
    intro c o' h
    cases h
    rfl
  | _ => exact requestsTo_of_ne id

theorem sample_requestsTo (report : SmdaReport) (span : Span) :
    (sample rt fuel client config report span).OnlyCalls (RequestsTo client) :=
  getOrSet_onlyCalls (ask_onlyCalls (requestsTo_of_ne id)) (fun _ => ask_onlyCalls (requestsTo_of_ne id))
    (ask_onlyCalls (requestsTo_of_ne id)) (onServer_requestsTo _ _ _)

theorem incomingSampleIds_requestsTo (views : List (Option ViewId)) (ids : Finset ℤ) :
    (incomingSampleIds rt fuel client config views ids).OnlyCalls (RequestsTo client) := by
  induction views generalizing ids with
  | nil => trivial
  | cons view views ih =>
    cases view with
    | none => trivial
    | some view =>
      exact .bind (exportReport_onlyCalls requestsTo_ambient view) fun report =>
        .bind (sample_requestsTo report none) fun ref => ih _

theorem matchPayload_requestsTo (toNode : SessionNode) (fromSample toSample : SampleRef) :
    (matchPayload rt fuel client config toNode fromSample toSample).OnlyCalls (RequestsTo client) := by
  have hshared : ∀ ids, (sharedPayload rt fuel client config toSample ids).OnlyCalls (RequestsTo client) := by
    intro ids
    refine getOrSet_onlyCalls (ask_onlyCalls (requestsTo_of_ne id)) (fun payload => ?_)
      (ask_onlyCalls (requestsTo_of_ne id)) (onServer_requestsTo _ _ _)
    split_ifs
    · exact ask_onlyCalls (requestsTo_of_ne id)
    · trivial
  have hcorpus : (corpusPayload rt fuel client config toNode toSample).OnlyCalls (RequestsTo client) := by
    unfold corpusPayload
    split_ifs
    · trivial
    · refine .tryCatch (.bind (incomingSampleIds_requestsTo _ _) fun ids => ?_) fun _ => trivial
      cases ids with
      | none => trivial
      | some ids => exact hshared ids
  refine .bind ?_ fun shared => ?_
  · split_ifs
    · exact hcorpus
    · trivial
  · split_ifs
    · exact .bind (ask_onlyCalls (requestsTo_of_ne id)) fun _ => .bind (onlyCalls_raiseIf _ _) fun _ =>
        onServer_requestsTo _ _ _
    · trivial

theorem visitPayload_requestsTo (fromNode toNode : SessionNode) (fromView : ViewId) (report : SmdaReport)
    (fromSample : SampleRef) (payload : Json) :
    (visitPayload rt fromNode toNode fromView config client report fromSample payload).OnlyCalls
      (RequestsTo client) := by
  have hlookup : ∀ server fids, (lookupTargets rt client server fids).OnlyCalls (RequestsTo client) := by
    intro server fids
    refine .bind (missingOffsets_onlyCalls requestsTo_caches server fids) fun missing => .bind ?_ fun _ =>
      knownOffsets_onlyCalls requestsTo_caches server fids _
    unfold fetchOffsets
    split_ifs
    · trivial
    · exact .bind (onServer_requestsTo _ _ _) fun _ => setOffsets_onlyCalls requestsTo_caches _ _
  exact .bind (onlyCalls_ofExcept _) fun matched => .bind (hlookup _ _) fun targets =>
    .bind (advance_onlyCalls requestsTo_ambient _) fun _ => .bind (ask_onlyCalls (requestsTo_of_ne id)) fun listed =>
    .bind (targetEntities_onlyCalls requestsTo_ambient _ _ _ _) fun targetIndex =>
      emitMatches_onlyCalls (fun _ ho _ => requestsTo_of_ne ho) _ _ _ _ _ _

end Visit

/-! ## The endpoint and then the client -/

/-- A visit asks only through its client, once it knows the endpoint if it needs one. -/
def visitRoute (config : ProviderConfig) : Protocol VisitI where
  State := Option Endpoint
  allowed := fun known o => ∀ client o', o = .server client o' → Routed config known client
  next := fun known o a =>
    match o, a with
    | .endpoint _, a => learnEndpoint config known a
    | _, _ => known

def processRoute (config : ProviderConfig) : Protocol ProcessI where
  State := Option Endpoint
  allowed := fun known o => ∀ client, o.client? = some client → Routed config known client
  next := fun known o a =>
    match o, a with
    | .endpoint _, a => learnEndpoint config known a.result
    | _, _ => known

/-- The program ends with the client of its configuration. -/
def GivesClient (config : ProviderConfig) {α : Type} (client : α → McritClient) :
    Outcome PyError α → Option Endpoint → Prop
  | .returned a, known => Routed config known (client a)
  | _, _ => True

section Route

variable {rt : Runtime} {fuel : ℕ} {config : ProviderConfig} {client : McritClient} {known : Option Endpoint}

/-- The client of what `resolve` gives, when `endpoint` leaves its answer known. -/
theorem follows_clientFor {I : Interface} {P : Protocol I} {endpoint : String → Prog I PyError Endpoint} {s : P.State}
    {K : Option Endpoint → P.State → Prop} (hs : K none s)
    (hendpoint : isBuiltin config.server = true → ∀ corpus, (endpoint corpus).Follows P
      (fun out t => ∀ e, out = .returned e → K (some e) t) s) :
    (resolve endpoint config).Follows P (fun out t => ∀ resolved, out = .returned resolved →
      ∃ known, K known t ∧ ∀ client, clientFor resolved = .ok client → Routed config known client) s := by
  cases hbuiltin : isBuiltin config.server with
  | true =>
    rw [resolve_builtin hbuiltin]
    refine Follows.bind ((hendpoint hbuiltin _).mono fun out t ht => ?_)
    cases out with
    | returned e =>
      rintro _ ⟨⟩
      exact ⟨some e, ht e rfl, fun client hclient => ⟨fun _ => ⟨e, rfl, hclient⟩, fun hremote =>
        absurd (hremote.symm.trans hbuiltin) Bool.false_ne_true⟩⟩
    | raised e => rintro _ ⟨⟩
    | pending => trivial
  | false =>
    rw [resolve_remote hbuiltin]
    rintro _ ⟨⟩
    exact ⟨none, hs, fun client hclient => ⟨fun hlocal =>
      absurd (hbuiltin.symm.trans hlocal) Bool.false_ne_true, fun _ => hclient⟩⟩

/-! ### Visits -/

theorem RequestsTo.follows {α : Type} {p : VisitProg α} (hp : p.OnlyCalls (RequestsTo client))
    (hclient : Routed config known client) : p.Follows (visitRoute config) (fun _ t => t = known) known := by
  refine OnlyCalls.follows (P := visitRoute config) hp fun o ho => ⟨fun c o' hserver => ?_, fun a => ?_⟩
  · rw [ho c o' hserver]
    exact hclient
  · cases o with
    | endpoint corpus => exact hclient.learnEndpoint_eq a
    | _ => rfl

/-- Neither asks a server nor starts one. -/
def VisitOp.IsLocal : VisitOp → Prop
  | .server _ _ => False
  | .endpoint _ => False
  | _ => True

theorem VisitOp.IsLocal.follows {α : Type} {p : VisitProg α} (hp : p.OnlyCalls VisitOp.IsLocal) :
    p.Follows (visitRoute config) (fun _ t => t = known) known := by
  refine OnlyCalls.follows (P := visitRoute config) hp fun o ho => ⟨fun c o' hserver => ?_, fun a => ?_⟩
  · subst hserver
    exact ho.elim
  · cases o with
    | endpoint corpus => exact ho.elim
    | _ => rfl

theorem follows_advance (progress : ℚ) :
    (advance progress).Follows (visitRoute config) (fun _ t => t = known) known :=
  VisitOp.IsLocal.follows (.bind (ask_onlyCalls trivial) fun _ => .bind (ask_onlyCalls trivial) fun _ =>
    onlyCalls_raiseIf _ _)

theorem follows_exportReport (view : ViewId) :
    (exportReport view).Follows (visitRoute config) (fun _ t => t = known) known :=
  VisitOp.IsLocal.follows (.bind (ask_onlyCalls trivial) fun _ => onlyCalls_ofExcept _)

theorem follows_visitSetup (fromView toView : ViewId) : (visitSetup rt fuel fromView toView config).Follows
    (visitRoute config) (GivesClient config VisitSetup.client) none := by
  have hendpoint : isBuiltin config.server = true → ∀ corpus,
      (ask (.endpoint corpus) >>= Prog.ofExcept : VisitProg Endpoint).Follows (visitRoute config)
        (fun out t => ∀ e, out = .returned e → some e = t) none := by
    refine fun hbuiltin corpus => ⟨by rintro _ _ ⟨⟩, fun (a : Except PyError Endpoint) => ?_⟩
    cases a with
    | error e => rintro _ ⟨⟩
    | ok e =>
      intro e' heq
      obtain rfl := Outcome.returned.inj heq
      exact (learnEndpoint_none hbuiltin e).symm
  refine (follows_advance _).andThen (fun _ => ?_) fun _ => trivial
  refine (follows_exportReport _).andThen (fun fromReport => ?_) fun _ => trivial
  refine (follows_advance _).andThen (fun _ => ?_) fun _ => trivial
  refine (follows_exportReport _).andThen (fun toReport => ?_) fun _ => trivial
  refine (follows_advance _).andThen (fun _ => ?_) fun _ => trivial
  have hresolve := follows_clientFor (K := fun known t => known = t) (P := visitRoute config) rfl hendpoint
  refine Follows.bind (hresolve.mono fun out t ht => ?_)
  cases out with
  | raised e => trivial
  | pending => trivial
  | returned resolved =>
    obtain ⟨known, rfl, hrouted⟩ := ht resolved rfl
    show Follows _ _ _ (Prog.ofExcept (clientFor resolved) >>= _)
    cases hclient : clientFor resolved with
    | error e => trivial
    | ok client =>
      have hrouted := hrouted client hclient
      refine (RequestsTo.follows (sample_requestsTo fromReport _) hrouted).andThen (fun fromSample => ?_) fun _ =>
        trivial
      refine (follows_advance _).andThen (fun _ => ?_) fun _ => trivial
      refine (RequestsTo.follows (sample_requestsTo toReport _) hrouted).andThen (fun toSample => ?_) fun _ => trivial
      exact (follows_advance _).andThen (fun _ => hrouted) fun _ => trivial

/-- A visit asks only through the client of its configuration. -/
theorem follows_performVisitNodeEdge (fromNode toNode : SessionNode) :
    (performVisitNodeEdge rt fuel fromNode toNode config).Follows (visitRoute config) (fun _ _ => True) none := by
  have hvisit : (visitEdge rt fuel fromNode toNode config).Follows (visitRoute config) (fun _ _ => True) none := by
    unfold visitEdge
    split_ifs
    · trivial
    split
    · refine Follows.bind ((follows_visitSetup _ _).mono fun out t ht => ?_)
      cases out with
      | raised e => trivial
      | pending => trivial
      | returned s =>
        have hrouted : Routed config t s.client := ht
        refine (RequestsTo.follows (matchPayload_requestsTo _ _ _) hrouted).andThen (fun payload => ?_) fun _ =>
          trivial
        refine (follows_advance _).andThen (fun _ => ?_) fun _ => trivial
        exact (RequestsTo.follows (visitPayload_requestsTo _ _ _ _ _ _) hrouted).mono fun _ _ _ => trivial
    · trivial
  refine Follows.tryCatch (hvisit.mono fun out t _ => ?_)
  cases out with
  | returned result => trivial
  | raised e =>
    have hfailed : (visitFailed e).Follows (visitRoute config) (fun _ u => u = t) t :=
      VisitOp.IsLocal.follows (visitFailed_onlyCalls trivial e)
    exact hfailed.mono fun _ _ _ => trivial
  | pending => trivial

/-! ### Commands -/

theorem follows_resolvedClient :
    (resolvedClient config).Follows (processRoute config) (GivesClient config id) none := by
  have hendpoint : isBuiltin config.server = true → ∀ corpus, (startedEndpoint corpus).Follows (processRoute config)
      (fun out t => ∀ e, out = .returned e → some e = t) none := by
    refine fun hbuiltin corpus => ⟨by rintro _ ⟨⟩, fun (a : EndpointAnswer) => ?_⟩
    obtain ⟨result, loadFailed⟩ := a
    cases result with
    | error e => rintro _ ⟨⟩
    | ok e =>
      intro e' heq
      obtain rfl := Outcome.returned.inj heq
      exact (learnEndpoint_none hbuiltin e).symm
  have hresolve := follows_clientFor (K := fun known t => known = t) (P := processRoute config) rfl hendpoint
  refine Follows.bind (hresolve.mono fun out t ht => ?_)
  cases out with
  | raised e => trivial
  | pending => trivial
  | returned resolved =>
    obtain ⟨known, rfl, hrouted⟩ := ht resolved rfl
    show Follows _ _ _ (Prog.ofExcept (clientFor resolved))
    cases hclient : clientFor resolved with
    | error e => trivial
    | ok client => exact hrouted client hclient

/-- Requests of a command go through the given client. -/
def Through (client : McritClient) (o : ProcessOp) : Prop := ∀ c, o.client? = some c → c = client

theorem follows_throughClient {α : Type} {p : ProcessProg α} {post : Outcome PyError α → Option Endpoint → Prop}
    (hp : p.OnlyCalls (Through client)) (hclient : Routed config known client)
    (hpost : ∀ out, post out known) : p.Follows (processRoute config) post known := by
  have hstays : p.Follows (processRoute config) (fun _ t => t = known) known := by
    refine OnlyCalls.follows (P := processRoute config) hp fun o ho => ⟨fun c hc => ?_, fun a => ?_⟩
    · rw [ho c hc]
      exact hclient
    · cases o with
      | endpoint corpus => exact hclient.learnEndpoint_eq a.result
      | _ => rfl
  exact hstays.mono fun out t ht => ht ▸ hpost out

theorem attempt_throughClient {α : Type} {o : ProcessOp} {result : o.Ans → Except PyError α}
    (h : Through client o) :
    (attempt o result).OnlyCalls (Through client) :=
  ⟨h, fun _ => onlyCalls_ofExcept _⟩

theorem exportFile_throughClient (path : List Char) :
    (exportFile client path).OnlyCalls (Through client) := by
  refine .bind (attempt_throughClient fun c hc => (Option.some.inj hc).symm) fun data => ?_
  cases withNameSuffix path ".partial".toList with
  | none => trivial
  | some aside =>
    exact .bind (attempt_throughClient nofun) fun _ => .bind (attempt_throughClient nofun) fun _ => trivial

/-- A command that gets its client and goes on with it. -/
theorem follows_reports {α : Type} {p : McritClient → ProcessProg α}
    (hp : ∀ client, (p client).OnlyCalls (Through client)) :
    (reports (do let client ← resolvedClient config; p client)).Follows (processRoute config)
      (fun _ _ => True) none := by
  have hbody : Follows (processRoute config) (fun _ _ => True) none
      (do let client ← resolvedClient config; p client) := by
    refine Follows.bind (follows_resolvedClient.mono fun out t ht => ?_)
    cases out with
    | returned client => exact follows_throughClient (hp client) ht fun _ => trivial
    | raised e => trivial
    | pending => trivial
  refine Follows.tryCatch (Follows.bind (hbody.mono fun out t _ => ?_))
  cases out <;> trivial

theorem follows_start {F : Type} [DecidableEq F] {env : FileEnv F} {b : Builtin} {c : Command}
    {prog : ProcessProg Bool} (h : c.start env rt b = some prog) :
    prog.Follows (processRoute c.config) (fun _ _ => True) none := by
  cases c with
  | visit fuel fromNode toNode config =>
    obtain rfl := Option.some.inj h
    refine Follows.lift (P := visitRoute config) (Q := processRoute config) id (fun t o ho client hclient => ?_)
      (fun t o a => ?_) (follows_performVisitNodeEdge fromNode toNode)
    · cases o with
      | server c o' => exact ho client o' (by rw [Option.some.inj hclient])
      | _ => cases hclient
    · cases o <;> rfl
  | checkConnection config =>
    obtain rfl := Option.some.inj h
    exact follows_reports fun client => attempt_throughClient fun c hc => (Option.some.inj hc).symm
  | importCorpus config path =>
    simp only [Command.start] at h
    split_ifs at h
    obtain rfl := Option.some.inj h
    exact follows_reports fun client => attempt_throughClient fun c hc => (Option.some.inj hc).symm
  | exportCorpus config path =>
    simp only [Command.start] at h
    split_ifs at h
    obtain rfl := Option.some.inj h
    exact follows_reports fun client => exportFile_throughClient path

end Route

/-! ## Runs -/

section Runs

variable {F τ : Type} [DecidableEq F] [DecidableEq τ] {env : FileEnv F} {rt : Runtime} {p q : Process F τ}

/-- The endpoint of the built-in server, once it runs. -/
def Process.endpoint (p : Process F τ) : Option Endpoint := p.pool.shared.builtin.endpoint

/-- The server runs on, and `endpoint` answers with it. -/
theorem endpointSection_endpoint {b b' : Builtin} {corpus : String} {started : Except PyError Endpoint} {loaded : Bool}
    {a : EndpointAnswer} (h : endpointSection b corpus started loaded = (a, b')) :
    (∀ e, b.endpoint = some e → b'.endpoint = some e) ∧ ∀ e, a.result = .ok e → b'.endpoint = some e := by
  unfold endpointSection at h
  split at h
  · next endpoint hendpoint =>
    cases h
    exact ⟨fun _ he => he, fun e he => hendpoint.trans (congrArg some (Except.ok.inj he))⟩
  · next hnone =>
    refine ⟨fun e he => absurd (hnone.symm.trans he) nofun, ?_⟩
    split at h
    · cases h
      exact nofun
    · split_ifs at h
      all_goals
        cases h
        exact fun e he => congrArg some (Except.ok.inj he)

theorem endpoint_processSem {s s' : Shared F} {o : ProcessOp} {a : o.Ans} (h : processSem env s o a s') {e : Endpoint}
    (he : s.builtin.endpoint = some e) : s'.builtin.endpoint = some e := by
  by_cases ho : ∃ corpus, o = .endpoint corpus
  · obtain ⟨corpus, rfl⟩ := ho
    obtain ⟨started, loaded, builtin, hsection, rfl⟩ := h
    exact (endpointSection_endpoint hsection).1 e he
  · obtain ⟨files, rfl, -⟩ := processSem_frame env h (not_exists.1 ho)
    exact he

/-- The thread keeps to the route of its configuration, and knows only the endpoint of the process. -/
def OnRoute (config : ProviderConfig) (t : τ) (p : Process F τ) : Prop :=
  ∃ prog known, p.pool.threads t = some prog ∧ prog.Follows (processRoute config) (fun _ _ => True) known ∧
    ∀ e, known = some e → p.endpoint = some e

/-- What the thread knows after its own step is the endpoint of the process. -/
theorem known_next {s s' : Shared F} {o : ProcessOp} {a : o.Ans} {config : ProviderConfig} {known : Option Endpoint}
    (h : processSem env s o a s') (hknown : ∀ e, known = some e → s.builtin.endpoint = some e) {e : Endpoint}
    (he : (processRoute config).next known o a = some e) : s'.builtin.endpoint = some e := by
  cases o with
  | endpoint corpus =>
    obtain ⟨started, loaded, builtin, hsection, rfl⟩ := h
    obtain ⟨hkept, hanswered⟩ := endpointSection_endpoint hsection
    have hlearnt : learnEndpoint config known a.result = some e := he
    obtain ⟨result, loadFailed⟩ := a
    unfold learnEndpoint at hlearnt
    cases result with
    | error e' => exact hkept e (hknown e hlearnt)
    | ok e' =>
      cases known with
      | some known =>
        have heq : known = e := by
          revert hlearnt
          cases isBuiltin config.server <;> simp
        exact hkept e (hknown e (congrArg some heq))
      | none =>
        have heq : e' = e := by
          revert hlearnt
          cases isBuiltin config.server <;> simp
        exact hanswered e (congrArg Except.ok heq)
  | _ => exact endpoint_processSem h (hknown e he)

/-- The requests that a label makes go through the client of the configuration, if the thread makes them. -/
def RoutedLabel (config : ProviderConfig) (t : τ) (endpoint : Option Endpoint) : ProcessLabel τ → Prop
  | .op u o _ => u = t → ∀ client, o.client? = some client → Routed config endpoint client
  | .command _ _ => True

theorem OnRoute.step {config : ProviderConfig} {t : τ} {l : ProcessLabel τ} (hp : OnRoute config t p)
    (h : processStep env rt p l q) : OnRoute config t q ∧ (∀ e, p.endpoint = some e → q.endpoint = some e) ∧
      RoutedLabel config t q.endpoint l := by
  obtain ⟨prog, known, hprog, hfollows, hknown⟩ := hp
  cases l with
  | command u c =>
    obtain ⟨hnone, hstart⟩ := h
    have hne : t ≠ u := fun heq => by
      rw [heq, hnone] at hprog
      cases hprog
    split at hstart
    · subst hstart
      exact ⟨⟨prog, known, hprog, hfollows, hknown⟩, fun _ he => he, trivial⟩
    · subst hstart
      exact ⟨⟨prog, known, (Pool.threads_spawn_of_ne hne _ _).trans hprog, hfollows, hknown⟩, fun _ he => he, trivial⟩
  | op u o a =>
    obtain ⟨hop, -⟩ := h
    have hsem := hop.answered
    have hkept : ∀ e, p.endpoint = some e → q.endpoint = some e := fun e he => endpoint_processSem hsem he
    by_cases hut : u = t
    · subst hut
      obtain ⟨k, hk, -, hthreads⟩ := hop
      obtain rfl := Option.some.inj (hprog.symm.trans hk)
      refine ⟨⟨k a, (processRoute config).next known o a, ?_, hfollows.2 a, fun e he => known_next hsem hknown he⟩,
        hkept, fun _ client hclient => ?_⟩
      · rw [hthreads, Function.update_self]
      · exact (hfollows.1 client hclient).mono fun e he => hkept e (hknown e he)
    · refine ⟨⟨prog, known, (hop.threads_of_ne (Ne.symm hut)).trans hprog, hfollows, fun e he => hkept e (hknown e he)⟩,
        hkept, fun heq => absurd heq hut⟩

omit [DecidableEq τ] in
theorem RoutedLabel.mono {config : ProviderConfig} {t : τ} {endpoint endpoint' : Option Endpoint} {l : ProcessLabel τ}
    (h : RoutedLabel config t endpoint l) (hle : ∀ e, endpoint = some e → endpoint' = some e) :
    RoutedLabel config t endpoint' l := by
  cases l with
  | command u c => trivial
  | op u o a => exact fun hu client hclient => (h hu client hclient).mono hle

/-- Whatever else the process does, every request of a command goes through the client of its own configuration, and
all commands for the built-in server use the same endpoint. -/
theorem requestsReachTheirServer {p₀ p₁ : Process F τ} {t : τ} {command : Command}
    (hcommand : processStep env rt p₀ (.command t command) p₁) (hstarted : p₁.pool.threads t ≠ none)
    {tr : List (ProcessLabel τ)} (hrun : Steps (processStep env rt) p₁ tr p) {o : ProcessOp} {a : o.Ans}
    (hop : .op t o a ∈ tr) {client : McritClient} (hclient : o.client? = some client) :
    Routed command.config p.endpoint client := by
  obtain ⟨hnone, hstart⟩ := hcommand
  have hroute : OnRoute command.config t p₁ := by
    split at hstart
    · subst hstart
      exact absurd hnone hstarted
    · next prog hprog =>
      subst hstart
      exact ⟨prog, none, Pool.threads_spawn_self _ _ _, follows_start hprog, nofun⟩
  have hinv : OnRoute command.config t p ∧ ∀ l ∈ tr, RoutedLabel command.config t p.endpoint l := by
    refine hrun.invariant_trace (P := fun tr q => OnRoute command.config t q ∧
      ∀ l ∈ tr, RoutedLabel command.config t q.endpoint l) (fun tr s l q hs hstep => ?_)
        ⟨hroute, fun l hl => absurd hl List.not_mem_nil⟩
    obtain ⟨hq, hkept, hl⟩ := hs.1.step hstep
    refine ⟨hq, fun l' hl' => ?_⟩
    rcases List.mem_append.1 hl' with hl' | hl'
    · exact (hs.2 l' hl').mono hkept
    · rwa [List.mem_singleton.1 hl']
  exact hinv.2 _ hop rfl client hclient

end Runs

/-! ## A connection check -/

/-- The check starts the built-in server and asks it. -/
theorem requestsReachTheirServer_checkConnection : ∃ p₁ p : Process (List Char) ℕ,
    processStep plainEnv ⟨fun _ => none, fun _ => ""⟩ (.init corpusFiles)
        (.command 0 (.checkConnection corpusConfig)) p₁ ∧
      p.endpoint = some loopbackEndpoint ∧ Routed corpusConfig p.endpoint loopbackClient := by
  let rt : Runtime := ⟨fun _ => none, fun _ => ""⟩
  let p₀ : Process (List Char) ℕ := .init corpusFiles
  let pool := p₀.pool.spawn 0 (checkConnection corpusConfig)
  let exports := Function.update p₀.exports 0 none
  have hcommand : processStep plainEnv rt p₀ (.command 0 (.checkConnection corpusConfig)) ⟨pool, exports⟩ :=
    ⟨rfl, rfl⟩
  obtain ⟨q₁, prog₁, hop₁, hs₁, ht₁, hexec₁⟩ := Pool.exists_opStep (processSem plainEnv)
    (Pool.threads_spawn_self p₀.pool 0 _) (exec_checkConnection false) ⟨.ok loopbackEndpoint, true, _, rfl, rfl⟩
  obtain ⟨q₂, prog₂, hop₂, hs₂, -, -⟩ := Pool.exists_opStep (processSem plainEnv) ht₁ hexec₁
    (show processSem plainEnv q₁.shared (.getVersion loopbackClient) _ q₁.shared from rfl)
  have hop : ∀ {q q' o a}, Pool.OpStep (processSem plainEnv) q 0 o a q' →
      processStep plainEnv rt ⟨q, exports⟩ (.op 0 o a) ⟨q', exports⟩ := fun h => ⟨h, rfl⟩
  have hrun := Steps.cons (hop hop₁) (.single (hop hop₂))
  refine ⟨_, ⟨q₂, exports⟩, hcommand, ?_, requestsReachTheirServer hcommand ?_ hrun
    (List.mem_cons_of_mem _ List.mem_cons_self) rfl⟩
  · show q₂.shared.builtin.endpoint = _
    rw [hs₂, hs₁]
  · rw [show Process.pool ⟨pool, exports⟩ = pool from rfl, Pool.threads_spawn_self]
    exact nofun

end McritSimilarity

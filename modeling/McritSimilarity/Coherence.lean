import McritSimilarity.SteadyServer

/-!
# Caches that agree with the servers

`Coherent s`: what the caches of `s` hold is what the servers answer now; for the samples of a provider,
on the servers that it is new for.  From a coherent state a cached lookup is as good as the request
behind it, and leaves the state coherent: `sample_run` and `sharedPayload_run`.
-/

set_option autoImplicit false

namespace McritSimilarity

open Python Prog

/-! ## Coherence -/

section Coherence

variable {rt : Runtime} {fuel : ℕ}

/-- The offsets cached for a URL are those of a server. -/
def OffsetsOf (cache : LockedCache (String × ℤ) (ℤ × String)) (url : String)
    (server : McritServer rt fuel) : Prop :=
  ∀ text fid found, cache.find? (text, fid) = some found → clientServer text = .ok url →
    ∃ entry, server.answers.functions server.content.samples fid = some entry ∧
      targetFunction rt entry = some found

/-- The corpus payloads cached for a URL were computed by a server that had the incoming samples. -/
def CorpusOf (cache : LockedCache CorpusKey Json) (url : String) (server : McritServer rt fuel) : Prop :=
  ∀ key payload, cache.find? key = some payload → clientServer key.server = .ok url →
    ∃ c : ServerContent, Grows c.samples server.content.samples ∧
      (∀ sampleId ∈ key.sampleIds, ∃ sha256, HasSample c.samples sha256 sampleId) ∧
      ((matchSampleCorpus rt fuel key.sampleId key.params).run server.answers.serve c).1 =
        .returned payload

/-- The samples cached for a URL are those of a server. -/
def SamplesOf (cache : LockedCache (String × String) SampleRef) (url : String)
    (server : McritServer rt fuel) : Prop :=
  ∀ text sha256 ref, cache.find? (text, sha256) = some ref → clientServer text = .ok url →
    sha256 ≠ "" ∧ HasSample server.content.samples sha256 ref.sampleId

structure Coherent (s : ServerProcess rt fuel) : Prop where
  room : s.functionOffsets.Holds functionOffsetItems
  offsets : ∀ url, OffsetsOf s.functionOffsets url (s.servers url)
  corpus : ∀ url, CorpusOf s.corpusMatches url (s.servers url)
  samples : ∀ p url, s.isNew p url = true → SamplesOf (s.samples p) url (s.servers url)

theorem OffsetsOf.grow {cache : LockedCache (String × ℤ) (ℤ × String)} {url : String}
    {server : McritServer rt fuel} (h : OffsetsOf cache url server) {c : ServerContent}
    (hgrows : Grows server.content.samples c.samples) : OffsetsOf cache url (server.withContent c) := by
  intro text fid found hfound hurl
  obtain ⟨entry, hentry, htarget⟩ := h text fid found hfound hurl
  exact ⟨entry, server.steady.functions_grow _ _ fid entry hgrows hentry, htarget⟩

theorem CorpusOf.grow {cache : LockedCache CorpusKey Json} {url : String}
    {server : McritServer rt fuel} (h : CorpusOf cache url server) {c : ServerContent}
    (hgrows : Grows server.content.samples c.samples) : CorpusOf cache url (server.withContent c) := by
  intro key payload hpayload hurl
  obtain ⟨c', hgrows', hids, hrun⟩ := h key payload hpayload hurl
  exact ⟨c', hgrows'.trans hgrows, hids, hrun⟩

theorem SamplesOf.grow {cache : LockedCache (String × String) SampleRef} {url : String}
    {server : McritServer rt fuel} (h : SamplesOf cache url server) {c : ServerContent}
    (hgrows : Grows server.content.samples c.samples) : SamplesOf cache url (server.withContent c) := by
  intro text sha256 ref href hurl
  obtain ⟨hsha, hsample⟩ := h text sha256 ref href hurl
  exact ⟨hsha, hsample.grow hgrows⟩

/-- In a process that has just started nothing is cached. -/
theorem coherent_start (servers : Servers rt fuel) : Coherent (ServerProcess.start servers) where
  room := LockedCache.holds_new _ _
  offsets := by
    intro url text fid found hfound
    cases hfound
  corpus := by
    intro url key payload hpayload
    cases hpayload
  samples := by
    intro p url hnew
    cases hnew

end Coherence

/-! ## States of a visit -/

namespace VisitState

variable {rt : Runtime} {fuel : ℕ}

def samplesOn (s : VisitState rt fuel) (url : String) : StoredSamples := (s.servers url).content.samples

def withContent (s : VisitState rt fuel) (url : String) (c : ServerContent) : VisitState rt fuel :=
  { s with servers := Function.update s.servers url ((s.servers url).withContent c) }

def withOffsets (s : VisitState rt fuel) (cache : LockedCache (String × ℤ) (ℤ × String)) :
    VisitState rt fuel :=
  { s with functionOffsets := cache }

def withCorpus (s : VisitState rt fuel) (cache : LockedCache CorpusKey Json) : VisitState rt fuel :=
  { s with corpusMatches := cache }

def withSamples (s : VisitState rt fuel) (p : ProviderId)
    (cache : LockedCache (String × String) SampleRef) : VisitState rt fuel :=
  { s with samples := Function.update s.samples p cache }

@[simp] theorem withContent_self (s : VisitState rt fuel) (url : String) :
    s.withContent url (s.servers url).content = s := by
  have hserver : (s.servers url).withContent (s.servers url).content = s.servers url := rfl
  unfold withContent
  rw [hserver, Function.update_eq_self]

theorem servers_withContent (s : VisitState rt fuel) (url : String) (c : ServerContent) :
    (s.withContent url c).servers url = (s.servers url).withContent c :=
  Function.update_self _ _ _

theorem servers_withContent_of_ne (s : VisitState rt fuel) {url url' : String} (h : url' ≠ url)
    (c : ServerContent) : (s.withContent url c).servers url' = s.servers url' :=
  Function.update_of_ne h _ _

theorem samples_withSamples (s : VisitState rt fuel) (p : ProviderId)
    (cache : LockedCache (String × String) SampleRef) : (s.withSamples p cache).samples p = cache :=
  Function.update_self _ _ _

theorem samples_withSamples_of_ne (s : VisitState rt fuel) {p q : ProviderId} (h : q ≠ p)
    (cache : LockedCache (String × String) SampleRef) :
    (s.withSamples p cache).samples q = s.samples q :=
  Function.update_of_ne h _ _

@[simp] theorem withContent_withContent (s : VisitState rt fuel) (url : String) (c c' : ServerContent) :
    (s.withContent url c).withContent url c' = s.withContent url c' := by
  unfold withContent
  simp only [Function.update_self, Function.update_idem]
  rfl

theorem samplesOn_withContent (s : VisitState rt fuel) (url : String) (c : ServerContent) :
    (s.withContent url c).samplesOn = Function.update s.samplesOn url c.samples := by
  funext url'
  by_cases hurl : url' = url
  · rw [hurl, Function.update_self, samplesOn, servers_withContent]
    rfl
  · rw [Function.update_of_ne hurl, samplesOn, servers_withContent_of_ne s hurl]
    rfl

theorem answers_withContent (s : VisitState rt fuel) (url : String) (c : ServerContent)
    (url' : String) : ((s.withContent url c).servers url').answers = (s.servers url').answers := by
  by_cases hurl : url' = url
  · rw [hurl, servers_withContent]
    rfl
  · rw [servers_withContent_of_ne s hurl]

end VisitState

section States

variable {rt : Runtime} {fuel : ℕ} {s t u : VisitState rt fuel}

theorem Coherent.withContent (h : Coherent s.toServerProcess) (url : String) (c : ServerContent)
    (hgrows : Grows (s.samplesOn url) c.samples) : Coherent (s.withContent url c).toServerProcess where
  room := h.room
  offsets url' := by
    by_cases hurl : url' = url
    · rw [hurl, VisitState.servers_withContent]
      exact (h.offsets url).grow hgrows
    · rw [VisitState.servers_withContent_of_ne s hurl]
      exact h.offsets url'
  corpus url' := by
    by_cases hurl : url' = url
    · rw [hurl, VisitState.servers_withContent]
      exact (h.corpus url).grow hgrows
    · rw [VisitState.servers_withContent_of_ne s hurl]
      exact h.corpus url'
  samples p url' hnew := by
    by_cases hurl : url' = url
    · subst hurl
      rw [VisitState.servers_withContent]
      exact (h.samples p url' hnew).grow hgrows
    · rw [VisitState.servers_withContent_of_ne s hurl]
      exact h.samples p url' hnew

theorem Coherent.withOffsets (h : Coherent s.toServerProcess)
    {cache : LockedCache (String × ℤ) (ℤ × String)} (hroom : cache.Holds functionOffsetItems)
    (hoffsets : ∀ url, OffsetsOf cache url (s.servers url)) :
    Coherent (s.withOffsets cache).toServerProcess :=
  ⟨hroom, hoffsets, h.corpus, h.samples⟩

theorem Coherent.withCorpus (h : Coherent s.toServerProcess) {cache : LockedCache CorpusKey Json}
    (hcorpus : ∀ url, CorpusOf cache url (s.servers url)) :
    Coherent (s.withCorpus cache).toServerProcess :=
  ⟨h.room, h.offsets, hcorpus, h.samples⟩

theorem Coherent.withSamples (h : Coherent s.toServerProcess) {p : ProviderId}
    {cache : LockedCache (String × String) SampleRef}
    (hsamples : ∀ url, s.isNew p url = true → SamplesOf cache url (s.servers url)) :
    Coherent (s.withSamples p cache).toServerProcess where
  room := h.room
  offsets := h.offsets
  corpus := h.corpus
  samples q url hnew := by
    by_cases hq : q = p
    · rw [hq] at hnew ⊢
      rw [VisitState.samples_withSamples]
      exact hsamples url hnew
    · rw [VisitState.samples_withSamples_of_ne s hq]
      exact h.samples q url hnew

/-- A lookup leaves a coherent state that has the same servers, but for samples that were added. -/
structure Evolves (s t : VisitState rt fuel) (samples : String → StoredSamples) : Prop where
  coherent : Coherent t.toServerProcess
  isNew : t.isNew = s.isNew
  answers : ∀ url, (t.servers url).answers = (s.servers url).answers
  samples : t.samplesOn = samples
  emitted : t.emitted = s.emitted

end States

/-! ## Requests -/

section Requests

variable {rt : Runtime} {fuel : ℕ} {v : VisitCall} {α : Type}

/-- A program on the server runs as on the server alone. -/
theorem run_onServer (client : McritClient) (start stop : ℚ) (p : SampleProg α)
    (s : VisitState rt fuel) : (onServer client start stop p).run (visitHandler v) s =
      ((p.run (s.servers client.mcritServer).answers.serve (s.servers client.mcritServer).content).1,
        s.withContent client.mcritServer
          (p.run (s.servers client.mcritServer).answers.serve (s.servers client.mcritServer).content).2) := by
  induction p generalizing s with
  | call o k ih =>
    cases o with
    | server o =>
      have hnext := ih ((s.servers client.mcritServer).serve (.server o)) (s.withContent client.mcritServer
        ((s.servers client.mcritServer).answers.serve (.server o)
          (s.servers client.mcritServer).content).2)
      rw [VisitState.withContent_withContent, VisitState.servers_withContent] at hnext
      exact hnext
    | _ => exact ih _ s
  | _ =>
    simp only [run, VisitState.withContent_self]
    rfl

end Requests

/-! ## Samples -/

section Lookups

variable {rt : Runtime} {fuel : ℕ} {v : VisitCall} {s : VisitState rt fuel} {client : McritClient}
  {config : ProviderConfig}

theorem SamplesOf.get {cache : LockedCache (String × String) SampleRef} {url : String}
    {server : McritServer rt fuel} (h : SamplesOf cache url server) (key : String × String) :
    SamplesOf (cache.get key).2 url server := by
  intro text sha256 ref href
  rw [LockedCache.find?_get] at href
  exact h text sha256 ref href

theorem SamplesOf.store {cache : LockedCache (String × String) SampleRef} {url : String}
    {server : McritServer rt fuel} (h : SamplesOf cache url server) {key : String × String}
    {ref : SampleRef} (href : clientServer key.1 = .ok url → key.2 ≠ "" ∧
      HasSample server.content.samples key.2 ref.sampleId) : SamplesOf (cache.store key ref 0) url server := by
  intro text sha256 ref' hfind hurl
  by_cases hkey : (text, sha256) = key
  · subst hkey
    rw [LockedCache.find?_store_self, Option.some.injEq] at hfind
    rw [← hfind]
    exact href hurl
  · exact h text sha256 ref' (LockedCache.find?_store_of_ne hkey hfind) hurl

/-- The sample of a visit is the one that `ensure_sample` finds or uploads. -/
theorem sample_run (hs : Coherent s.toServerProcess)
    (hurl : clientServer config.server = .ok client.mcritServer)
    (hnew : s.isNew v.provider client.mcritServer = true) (report : SmdaReport) (span : Span)
    {r : Outcome PyError SampleRef × ServerContent}
    (hr : (ensureSample rt fuel client.mcritServer report (sampleLabels config)
        { reports := span.isSome }).run (s.servers client.mcritServer).answers.serve
          (s.servers client.mcritServer).content = r) :
    OutcomeRel (fun ref ref' => ref.sampleId = ref'.sampleId ∧
          HasSample r.2.samples report.sha256 ref.sampleId)
        ((sample rt fuel client config report span).run (visitHandler v) s).1 r.1 ∧
      Evolves s ((sample rt fuel client config report span).run (visitHandler v) s).2
        (Function.update s.samplesOn client.mcritServer r.2.samples) := by
  have hsteady := (s.servers client.mcritServer).steady
  have hget : Coherent (s.withSamples v.provider ((s.samples v.provider).get
      (config.server, report.sha256)).2).toServerProcess :=
    hs.withSamples fun url hnew => (hs.samples v.provider url hnew).get _
  cases hcached : (s.samples v.provider).find? (config.server, report.sha256) with
  | some ref =>
    obtain ⟨hsha, hsample⟩ := hs.samples v.provider _ hnew _ _ _ hcached hurl
    obtain ⟨hout, hsamples⟩ := ensureSample_of_hasSample hsteady hsha hsample client.mcritServer
      (sampleLabels config) { reports := span.isSome }
    rw [hr] at hout hsamples
    have hclaim : (ask (.claimSample (config.server, report.sha256))).run (visitHandler v) s =
        (.returned (.hit ref), s.withSamples v.provider
          ((s.samples v.provider).get (config.server, report.sha256)).2) := by
      rw [← claimOf_some hcached]
      rfl
    have hrun : (sample rt fuel client config report span).run (visitHandler v) s = (.returned ref,
        s.withSamples v.provider ((s.samples v.provider).get (config.server, report.sha256)).2) :=
      run_getOrSet_hit hclaim
    have hself : Function.update s.samplesOn client.mcritServer r.2.samples = s.samplesOn := by
      rw [hsamples]
      exact Function.update_eq_self _ _
    rw [hrun, hout, hself]
    exact ⟨.returned ⟨rfl, by rw [hsamples]; exact hsample⟩, hget, rfl, fun _ => rfl, rfl, rfl⟩
  | none =>
    have hclaim : (ask (.claimSample (config.server, report.sha256))).run (visitHandler v) s =
        (.returned .claimed, s.withSamples v.provider
          ((s.samples v.provider).get (config.server, report.sha256)).2) := by
      rw [← claimOf_none hcached]
      rfl
    have hrun : (sample rt fuel client config report span).run (visitHandler v) s = (r.1,
        storeOutcome (fun ref (t : VisitState rt fuel) => t.withSamples v.provider
          ((t.samples v.provider).store (config.server, report.sha256) ref 0)) (r.1,
            (s.withSamples v.provider ((s.samples v.provider).get
              (config.server, report.sha256)).2).withContent client.mcritServer r.2)) := by
      have hserver := run_onServer (v := v) client (span.getD (0, 1)).1 (span.getD (0, 1)).2
        (ensureSample rt fuel client.mcritServer report (sampleLabels config)
          { reports := span.isSome }) (s.withSamples v.provider
            ((s.samples v.provider).get (config.server, report.sha256)).2)
      rw [← hr]
      refine (run_getOrSet_claimed hclaim (fun _ _ => rfl) fun _ => rfl).trans ?_
      rw [hserver]
      rfl
    have hgrows : Grows (s.samplesOn client.mcritServer) r.2.samples := by
      rw [← hr]
      exact grows_run _ _
    have hcontent := hget.withContent client.mcritServer r.2 hgrows
    have hsamples := VisitState.samplesOn_withContent (s.withSamples v.provider
      ((s.samples v.provider).get (config.server, report.sha256)).2) client.mcritServer r.2
    have hanswers := VisitState.answers_withContent (s.withSamples v.provider
      ((s.samples v.provider).get (config.server, report.sha256)).2) client.mcritServer r.2
    rw [hrun]
    cases hout : r.1 with
    | raised e => exact ⟨.raised e, hcontent, rfl, hanswers, hsamples, rfl⟩
    | pending => exact ⟨.pending, hcontent, rfl, hanswers, hsamples, rfl⟩
    | returned ref =>
      have href := hasSample_ensureSample hsteady (hout ▸ congrArg Prod.fst hr)
      rw [hr] at href
      refine ⟨.returned ⟨rfl, href.2⟩, hcontent.withSamples fun url hnew => ?_, rfl, hanswers,
        hsamples, rfl⟩
      refine (hcontent.samples v.provider url hnew).store fun hserver => ?_
      obtain rfl : client.mcritServer = url := by
        rw [hurl, Except.ok.injEq] at hserver
        exact hserver
      rw [VisitState.servers_withContent]
      exact href

/-! ## Corpus payloads -/

theorem CorpusOf.get {cache : LockedCache CorpusKey Json} {url : String} {server : McritServer rt fuel}
    (h : CorpusOf cache url server) (key : CorpusKey) : CorpusOf (cache.get key).2 url server := by
  intro key' payload hpayload
  rw [LockedCache.find?_get] at hpayload
  exact h key' payload hpayload

/-- What a corpus payload does to the state once it has been computed. -/
def storeShared (key : CorpusKey) (payload : Json) (t : VisitState rt fuel) : VisitState rt fuel :=
  if shouldCache payload then t.withCorpus (t.corpusMatches.store key payload 0) else t

theorem run_storeShared (key : CorpusKey) (payload : Json) (t : VisitState rt fuel) :
    (if shouldCache payload then ask (.storeCorpus key payload) else pure () : VisitProg Unit).run
      (visitHandler v) t = (.returned (), storeShared key payload t) := by
  unfold storeShared
  split_ifs <;> rfl

/-- The corpus payload of a visit was computed by its server, at a time when the incoming samples were
there. -/
theorem sharedPayload_run (hs : Coherent s.toServerProcess)
    (hurl : clientServer config.server = .ok client.mcritServer) (toSample : SampleRef) {ids : Finset ℤ}
    (hids : ∀ sampleId ∈ ids, ∃ sha256, HasSample (s.samplesOn client.mcritServer) sha256 sampleId) :
    ∃ c : ServerContent, Grows c.samples (s.samplesOn client.mcritServer) ∧
      (∀ sampleId ∈ ids, ∃ sha256, HasSample c.samples sha256 sampleId) ∧
      ((sharedPayload rt fuel client config toSample ids).run (visitHandler v) s).1 =
        ((matchSampleCorpus rt fuel toSample.sampleId (matchingParams config)).run
          (s.servers client.mcritServer).answers.serve c).1 ∧
      Evolves s ((sharedPayload rt fuel client config toSample ids).run (visitHandler v) s).2
        s.samplesOn := by
  have hget : Coherent
      (s.withCorpus (s.corpusMatches.get (corpusKey config toSample ids)).2).toServerProcess :=
    hs.withCorpus fun url => (hs.corpus url).get _
  cases hcached : s.corpusMatches.find? (corpusKey config toSample ids) with
  | some payload =>
    have hclaim : (ask (.claimCorpus (corpusKey config toSample ids))).run (visitHandler v) s =
        (.returned (.hit payload),
          s.withCorpus (s.corpusMatches.get (corpusKey config toSample ids)).2) := by
      rw [← claimOf_some hcached]
      rfl
    have hrun : (sharedPayload rt fuel client config toSample ids).run (visitHandler v) s =
        (.returned payload, s.withCorpus (s.corpusMatches.get (corpusKey config toSample ids)).2) :=
      run_getOrSet_hit hclaim
    obtain ⟨c, hgrows, hknown, hcomputed⟩ := hs.corpus _ _ _ hcached hurl
    rw [hrun]
    exact ⟨c, hgrows, hknown, hcomputed.symm, hget, rfl, fun _ => rfl, rfl, rfl⟩
  | none =>
    generalize hr : (matchSampleCorpus rt fuel toSample.sampleId (matchingParams config)).run
      (s.servers client.mcritServer).answers.serve (s.servers client.mcritServer).content = r
    have hclaim : (ask (.claimCorpus (corpusKey config toSample ids))).run (visitHandler v) s =
        (.returned .claimed,
          s.withCorpus (s.corpusMatches.get (corpusKey config toSample ids)).2) := by
      rw [← claimOf_none hcached]
      rfl
    have hrun : (sharedPayload rt fuel client config toSample ids).run (visitHandler v) s = (r.1,
        storeOutcome (storeShared (corpusKey config toSample ids)) (r.1,
            (s.withCorpus (s.corpusMatches.get (corpusKey config toSample ids)).2).withContent
              client.mcritServer r.2)) := by
      have hserver := run_onServer (v := v) client (55 / 100) (88 / 100)
        (matchSampleCorpus rt fuel toSample.sampleId (matchingParams config))
        (s.withCorpus (s.corpusMatches.get (corpusKey config toSample ids)).2)
      rw [← hr]
      refine (run_getOrSet_claimed hclaim (run_storeShared _) fun _ => rfl).trans ?_
      rw [hserver]
      rfl
    have hsamples : r.2.samples = s.samplesOn client.mcritServer := by
      rw [← hr]
      exact samples_run (matchSampleCorpus_onlyCalls rt fuel _ _ _) _
    have hgrows : Grows (s.samplesOn client.mcritServer) r.2.samples := hsamples ▸ .refl _
    have hcontent := hget.withContent client.mcritServer r.2 hgrows
    have hsamplesOn : ((s.withCorpus (s.corpusMatches.get
        (corpusKey config toSample ids)).2).withContent client.mcritServer r.2).samplesOn =
          s.samplesOn := by
      rw [VisitState.samplesOn_withContent, hsamples]
      exact Function.update_eq_self _ _
    have hanswers := VisitState.answers_withContent (s.withCorpus (s.corpusMatches.get
      (corpusKey config toSample ids)).2) client.mcritServer r.2
    refine ⟨(s.servers client.mcritServer).content, .refl _, hids, ?_⟩
    rw [hrun, hr]
    refine ⟨rfl, ?_⟩
    cases hout : r.1 with
    | raised e => exact ⟨hcontent, rfl, hanswers, hsamplesOn, rfl⟩
    | pending => exact ⟨hcontent, rfl, hanswers, hsamplesOn, rfl⟩
    | returned payload =>
      simp only [storeOutcome, storeShared]
      split_ifs
      · refine ⟨hcontent.withCorpus fun url key payload' hfind hkey => ?_, rfl, hanswers, hsamplesOn, rfl⟩
        by_cases hsame : key = corpusKey config toSample ids
        · subst hsame
          rw [LockedCache.find?_store_self, Option.some.injEq] at hfind
          obtain rfl : client.mcritServer = url := by
            rw [show (corpusKey config toSample ids).server = config.server from rfl, hurl,
              Except.ok.injEq] at hkey
            exact hkey
          refine ⟨(s.servers client.mcritServer).content, ?_, hids, ?_⟩
          · rw [VisitState.servers_withContent]
            exact hgrows
          · rw [hanswers, ← hfind, ← hout, ← hr]
            rfl
        · exact hcontent.corpus url key payload' (LockedCache.find?_store_of_ne hsame hfind) hkey
      · exact ⟨hcontent, rfl, hanswers, hsamplesOn, rfl⟩

end Lookups

end McritSimilarity

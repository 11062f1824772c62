import McritSimilarity.OffsetLookup
import McritSimilarity.VisitCalls

/-!
# Two runs of a visit

`Alike v T`: two states of the visit `v` with the same servers, whose caches are coherent but need not
hold the same.  The two runs of each part of `v` from such states come to the same end and leave such
states; so the whole visit emits the same from both (`agree_visit`).  `T` are samples that are known to
be on the server.
-/

set_option autoImplicit false

namespace McritSimilarity

open Python Prog

section Alike

variable {rt : Runtime} {fuel : ℕ}

structure Alike (v : VisitCall) (T : Set (String × ℤ)) (s s' : VisitState rt fuel) : Prop where
  coherent : Coherent s.toServerProcess
  coherent' : Coherent s'.toServerProcess
  isNew : ∀ url, v.url = .ok url → s.isNew v.provider url = true
  isNew' : ∀ url, v.url = .ok url → s'.isNew v.provider url = true
  answers : ∀ url, (s'.servers url).answers = (s.servers url).answers
  samples : s'.samplesOn = s.samplesOn
  emitted : s'.emitted = s.emitted
  fits : ∀ url, v.url = .ok url → (s.servers url).answers.Fits rt fuel
  known : ∀ url, v.url = .ok url → ∀ x ∈ T, HasSample (s.samplesOn url) x.1 x.2

variable {v : VisitCall} {T T' : Set (String × ℤ)} {s s' t t' : VisitState rt fuel}

theorem Alike.weaken (h : Alike v T s s') (hT : T' ⊆ T) : Alike v T' s s' :=
  { h with known := fun url hurl x hx => h.known url hurl x (hT hx) }

theorem Alike.content (h : Alike v T s s') (url : String) :
    (s'.servers url).content = ⟨(s.servers url).content.samples, (s'.servers url).content.asked⟩ := by
  have hsamples : (s'.servers url).content.samples = (s.servers url).content.samples :=
    congrFun h.samples url
  rw [← hsamples]

theorem Alike.forget (h : Alike v T s s') : Alike v ∅ s s' := h.weaken (Set.empty_subset T)

/-- Two lookups that leave the same samples. -/
theorem Alike.evolve (h : Alike v T s s') {samples : String → StoredSamples}
    (hs : Evolves s t samples) (hs' : Evolves s' t' samples)
    (hgrows : ∀ url, Grows (s.samplesOn url) (samples url)) : Alike v T t t' where
  coherent := hs.coherent
  coherent' := hs'.coherent
  isNew url hurl := by
    rw [hs.isNew]
    exact h.isNew url hurl
  isNew' url hurl := by
    rw [hs'.isNew]
    exact h.isNew' url hurl
  answers url := by rw [hs'.answers, h.answers, hs.answers]
  samples := by rw [hs'.samples, hs.samples]
  emitted := by rw [hs'.emitted, h.emitted, hs.emitted]
  fits url hurl := by
    rw [hs.answers]
    exact h.fits url hurl
  known url hurl x hx := by
    rw [hs.samples]
    exact (h.known url hurl x hx).grow (hgrows url)

/-- Both visits emit the same. -/
theorem Alike.emit (h : Alike v T s s') (emission : Emission) :
    Alike v T { s with emitted := s.emitted ++ [emission] }
      { s' with emitted := s'.emitted ++ [emission] } :=
  { h with emitted := congrArg (· ++ [emission]) h.emitted }

/-- The two runs of a program from alike states. -/
abbrev AgreeOn {α : Type} (rt : Runtime) (fuel : ℕ) (v : VisitCall) (T : Set (String × ℤ))
    (Q : α → α → VisitState rt fuel → VisitState rt fuel → Prop) (p q : VisitProg α) : Prop :=
  Agree (visitHandler v) (visitHandler v) (Alike v T) (Alike v ∅) Q p q

/-- The operation is answered by the surroundings of the visit. -/
def AroundVisit (o : VisitOp) : Prop := ¬ o.IsServer ∧ ¬ o.IsCached

theorem ambient_aroundVisit : Ambient AroundVisit := fun _ hserver _ hcached => ⟨hserver, hcached⟩

theorem agree_around {α : Type} {p : VisitProg α} (hp : p.OnlyCalls AroundVisit) :
    AgreeOn rt fuel v T (fun a b s s' => a = b ∧ Alike v T s s') p p := by
  refine (Agree.refl hp fun o ho s s' hs => ?_).mono (fun _ _ h => h) (fun _ _ h => h.forget)
    fun _ _ _ _ h => h
  cases o with
  | server client o => exact (ho.1 trivial).elim
  | claimSample key => exact (ho.2 trivial).elim
  | storeSample key ref => exact (ho.2 trivial).elim
  | releaseSample key => exact (ho.2 trivial).elim
  | claimCorpus key => exact (ho.2 trivial).elim
  | storeCorpus key payload => exact (ho.2 trivial).elim
  | releaseCorpus key => exact (ho.2 trivial).elim
  | getOffset key => exact (ho.2 trivial).elim
  | setOffset key found => exact (ho.2 trivial).elim
  | updateLabels labels => exact ⟨rfl, hs.emit _⟩
  | addResult source target similarity confidence => exact ⟨rfl, hs.emit _⟩
  | _ => exact ⟨rfl, hs⟩

theorem agree_advance (progress : ℚ) : AgreeOn rt fuel v T (fun a b s s' => a = b ∧ Alike v T s s')
    (advance progress) (advance progress) :=
  agree_around (advance_onlyCalls ambient_aroundVisit progress)

/-- Both runs export the same report of a view. -/
theorem agree_exportReport (view : ViewId) : AgreeOn rt fuel v T (fun a b s s' =>
    (a = b ∧ v.surroundings.exportReport view = .ok a) ∧ Alike v T s s')
      (exportReport view) (exportReport view) := by
  intro s s' hs
  have hrun : ∀ u : VisitState rt fuel, (exportReport view).run (visitHandler v) u =
      (Prog.ofExcept (v.surroundings.exportReport view) : VisitProg SmdaReport).run (visitHandler v) u :=
    fun _ => rfl
  rw [hrun, hrun]
  exact Agree.ofExcept _ (fun _ _ h => h.forget) s s' hs

end Alike

/-! ## Samples and payloads -/

section Lookups

variable {rt : Runtime} {fuel : ℕ} {v : VisitCall} {T : Set (String × ℤ)} {client : McritClient}
  {config : ProviderConfig}

/-- Both runs get the same sample of a report, and it is on the server then. -/
theorem agree_sample (hurl : clientServer config.server = .ok client.mcritServer)
    (hv : v.url = .ok client.mcritServer) (report : SmdaReport) (span : Span) :
    AgreeOn rt fuel v T (fun ref ref' s s' => ref.sampleId = ref'.sampleId ∧
      Alike v (insert (report.sha256, ref.sampleId) T) s s')
      (sample rt fuel client config report span) (sample rt fuel client config report span) := by
  intro s s' hs
  have hsteady := (s.servers client.mcritServer).steady
  generalize hr : (ensureSample rt fuel client.mcritServer report (sampleLabels config)
    { reports := span.isSome }).run (s.servers client.mcritServer).answers.serve
      (s.servers client.mcritServer).content = r
  generalize hr' : (ensureSample rt fuel client.mcritServer report (sampleLabels config)
    { reports := span.isSome }).run (s'.servers client.mcritServer).answers.serve
      (s'.servers client.mcritServer).content = r'
  obtain ⟨hout, hevolves⟩ := sample_run (v := v) hs.coherent hurl (hs.isNew _ hv) report span hr
  obtain ⟨hout', hevolves'⟩ := sample_run (v := v) hs.coherent' hurl (hs.isNew' _ hv) report span hr'
  have hsame : r.1 = r'.1 ∧ r.2.samples = r'.2.samples := by
    rw [hs.answers, hs.content] at hr'
    rw [← hr, ← hr']
    exact ensureSample_steady hsteady (s.samplesOn client.mcritServer) _ _ client.mcritServer report _ _
  have hgrows : ∀ url, Grows (s.samplesOn url)
      (Function.update s.samplesOn client.mcritServer r.2.samples url) := by
    intro url
    by_cases h : url = client.mcritServer
    · rw [h, Function.update_self, ← hr]
      exact grows_run _ _
    · rw [Function.update_of_ne h]
      exact .refl _
  rw [← hsame.1] at hout'
  rw [← hsame.2, hs.samples] at hevolves'
  have halike := hs.evolve hevolves hevolves' hgrows
  have hsamples := congrFun hevolves.samples client.mcritServer
  rw [Function.update_self] at hsamples
  have hboth := EndsAlike.of_outcomeRel
    (R := fun t t' => Alike v T t t' ∧ t.samplesOn client.mcritServer = r.2.samples)
    (hout.comp (fun ref _ ref' h h' => (⟨h.1.trans h'.1.symm, h.2⟩ : ref.sampleId = ref'.sampleId ∧
      HasSample r.2.samples report.sha256 ref.sampleId)) hout'.symm) (And.intro halike hsamples)
  refine hboth.mono (fun _ _ h => h.1.forget) fun ref ref' t t' h => ⟨h.1.1, ?_⟩
  refine { h.2.1 with known := fun url hurl x hx => ?_ }
  rcases hx with rfl | hx
  · rw [hv, Except.ok.injEq] at hurl
    rw [← hurl, h.2.2]
    exact h.1.2
  · exact h.2.1.known url hurl x hx

/-- Both runs get the same ids for the incoming nodes; the samples are on the server then, and so is
each sample that was known before under the file of an incoming view. -/
theorem agree_incomingSampleIds (hurl : clientServer config.server = .ok client.mcritServer)
    (hv : v.url = .ok client.mcritServer) (views : List (Option ViewId)) {ids : Finset ℤ}
    (hids : ∀ sampleId ∈ ids, ∃ sha256, (sha256, sampleId) ∈ T) :
    AgreeOn rt fuel v T (fun o o' s s' => o = o' ∧ ∃ T', T ⊆ T' ∧ Alike v T' s s' ∧
      ∀ ids', o = some ids' → ids ⊆ ids' ∧ (∀ sampleId ∈ ids', ∃ sha256, (sha256, sampleId) ∈ T') ∧
        ∀ view report sampleId, some view ∈ views → v.surroundings.exportReport view = .ok report →
          (report.sha256, sampleId) ∈ T → sampleId ∈ ids')
      (incomingSampleIds rt fuel client config views ids)
      (incomingSampleIds rt fuel client config views ids) := by
  induction views generalizing T ids with
  | nil =>
    refine Agree.ret fun s s' hs => ⟨rfl, T, subset_rfl, hs, fun ids' h => ?_⟩
    rw [← Option.some.inj h]
    exact ⟨subset_rfl, hids, by simp⟩
  | cons view views ih =>
    cases view with
    | none => exact Agree.ret fun s s' hs => ⟨rfl, T, subset_rfl, hs, fun ids' h => by cases h⟩
    | some view =>
      unfold incomingSampleIds
      refine (agree_exportReport view).bind' fun report report' hreport => ?_
      obtain ⟨rfl, hexport⟩ := hreport
      refine (agree_sample hurl hv report none).bind fun ref ref' t t' href => ?_
      obtain ⟨hsame, halike⟩ := href
      have hids' : ∀ sampleId ∈ insert ref.sampleId ids, ∃ sha256,
          (sha256, sampleId) ∈ insert (report.sha256, ref.sampleId) T := by
        intro sampleId hmem
        rcases Finset.mem_insert.1 hmem with rfl | hmem
        · exact ⟨report.sha256, Set.mem_insert _ _⟩
        · obtain ⟨sha256, hsha⟩ := hids sampleId hmem
          exact ⟨sha256, Set.mem_insert_of_mem _ hsha⟩
      rw [← hsame]
      refine (ih hids' t t' halike).mono (fun _ _ h => h) fun o o' u u' h => ⟨h.1, ?_⟩
      obtain ⟨T', hT, hafter, hfound⟩ := h.2
      refine ⟨T', (Set.subset_insert _ _).trans hT, hafter, fun ids' ho => ?_⟩
      obtain ⟨hsub, hknown, hviews⟩ := hfound ids' ho
      refine ⟨(Finset.subset_insert _ _).trans hsub, hknown, fun view' report' sampleId hview hreport hmem => ?_⟩
      rcases List.mem_cons.1 hview with hview | hview
      · obtain rfl : view' = view := Option.some.inj hview
        obtain rfl : report = report' := Except.ok.inj (hexport.symm.trans hreport)
        have hfirst := halike.known _ hv _ (Set.mem_insert _ _)
        have hsecond := halike.known _ hv _ (Set.mem_insert_of_mem _ hmem)
        obtain rfl : sampleId = ref.sampleId := hsecond.unique hfirst
        exact hsub (Finset.mem_insert_self _ _)
      · exact hviews view' report' sampleId hview hreport (Set.mem_insert_of_mem _ hmem)

/-- Payloads that read alike for a sample. -/
def PayloadsAlike (sampleId : ℤ) (payload payload' : Json) : Prop :=
  SameRows sampleId payload payload' ∧ FitsOffsets payload

theorem payloadsAlike_null (sampleId : ℤ) : PayloadsAlike sampleId .null .null := by
  refine ⟨⟨rfl, fun _ _ => rfl⟩, fun filter matched hmatched => ?_⟩
  have hnil : parseVsResult .null filter = .ok [] := rfl
  obtain rfl : [] = matched := Except.ok.inj (hnil.symm.trans hmatched)
  exact Nat.zero_le _

/-- Both runs share payloads with the same rows of the source sample. -/
theorem agree_sharedPayload (hurl : clientServer config.server = .ok client.mcritServer)
    (hv : v.url = .ok client.mcritServer) {toSample toSample' : SampleRef}
    (hto : toSample.sampleId = toSample'.sampleId) {ids : Finset ℤ}
    (hids : ∀ sampleId ∈ ids, ∃ sha256, (sha256, sampleId) ∈ T) {sampleId : ℤ} (hmem : sampleId ∈ ids) :
    AgreeOn rt fuel v T (fun payload payload' s s' => PayloadsAlike sampleId payload payload' ∧
      Alike v ∅ s s') (sharedPayload rt fuel client config toSample ids)
      (sharedPayload rt fuel client config toSample' ids) := by
  intro s s' hs
  have hknown : ∀ sampleId ∈ ids, ∃ sha256,
      HasSample (s.samplesOn client.mcritServer) sha256 sampleId := by
    intro sampleId hmem
    obtain ⟨sha256, hsha⟩ := hids sampleId hmem
    exact ⟨sha256, hs.known _ hv _ hsha⟩
  have hknown' : ∀ sampleId ∈ ids, ∃ sha256,
      HasSample (s'.samplesOn client.mcritServer) sha256 sampleId := by
    rw [hs.samples]
    exact hknown
  obtain ⟨c, hgrows, hc, hout, hevolves⟩ := sharedPayload_run (v := v) hs.coherent hurl toSample hknown
  obtain ⟨c', hgrows', hc', hout', hevolves'⟩ :=
    sharedPayload_run (v := v) hs.coherent' hurl toSample' hknown'
  rw [hs.samples] at hgrows' hevolves'
  rw [hs.answers, ← hto] at hout'
  have hsteady := (s.servers client.mcritServer).steady
  obtain ⟨sha256, hsha⟩ := hc sampleId hmem
  obtain ⟨sha256', hsha'⟩ := hc' sampleId hmem
  have hnow := hsteady.corpus c (s.servers client.mcritServer).content toSample.sampleId
    (matchingParams config) sha256 sampleId hgrows hsha
  have hnow' := hsteady.corpus c' (s.servers client.mcritServer).content toSample.sampleId
    (matchingParams config) sha256' sampleId hgrows' hsha'
  have hrows : OutcomeRel (SameRows sampleId)
      ((sharedPayload rt fuel client config toSample ids).run (visitHandler v) s).1
      ((sharedPayload rt fuel client config toSample' ids).run (visitHandler v) s').1 := by
    rw [hout, hout']
    exact hnow.comp (fun _ _ _ h h' => h.trans h'.symm) hnow'.symm
  have hfits : ∀ payload, ((sharedPayload rt fuel client config toSample ids).run
      (visitHandler v) s).1 = .returned payload → FitsOffsets payload := by
    intro payload hpayload
    rw [hout] at hpayload
    exact (hs.fits _ hv).2 c _ _ payload hpayload
  exact .of_outcomeRel (hrows.and_left hfits)
    (hs.forget.evolve hevolves hevolves' fun url => .refl _)

/-- Both runs get a corpus payload, or both get none. -/
theorem agree_corpusPayload (hurl : clientServer config.server = .ok client.mcritServer)
    (hv : v.url = .ok client.mcritServer) {toSample toSample' : SampleRef}
    (hto : toSample.sampleId = toSample'.sampleId) {fromView : ViewId}
    (hview : some fromView ∈ v.toNode.incomingViews) {report : SmdaReport}
    (hreport : v.surroundings.exportReport fromView = .ok report) {sampleId : ℤ} :
    AgreeOn rt fuel v {(report.sha256, sampleId)} (fun payload payload' s s' =>
      PayloadsAlike sampleId payload payload' ∧ Alike v ∅ s s')
      (corpusPayload rt fuel client config v.toNode toSample)
      (corpusPayload rt fuel client config v.toNode toSample') := by
  have hnull : ∀ T, AgreeOn rt fuel v T (fun payload payload' s s' =>
      PayloadsAlike sampleId payload payload' ∧ Alike v ∅ s s') (pure .null) (pure .null) :=
    fun T => Agree.ret fun s s' hs => ⟨payloadsAlike_null sampleId, hs.forget⟩
  unfold corpusPayload
  split_ifs
  · exact hnull _
  · refine Agree.tryCatch ?_ fun _ => hnull ∅
    unfold tryCorpusPayload
    refine (agree_incomingSampleIds hurl hv _ (by simp)).bind fun ids ids' t t' hids => ?_
    obtain ⟨rfl, T', hT, halike, hknown⟩ := hids
    cases ids with
    | none => exact hnull T' t t' halike
    | some ids =>
      obtain ⟨-, hids, hviews⟩ := hknown ids rfl
      have hmem : sampleId ∈ ids :=
        hviews fromView report sampleId hview hreport (Set.mem_singleton _)
      exact agree_sharedPayload hurl hv hto hids hmem t t' halike

/-- Requests that leave the samples as they are. -/
theorem alike_withContent {s s' : VisitState rt fuel} (hs : Alike v T s s') {url : String}
    {c c' : ServerContent} (hc : c.samples = s.samplesOn url) (hc' : c'.samples = s'.samplesOn url) :
    Alike v T (s.withContent url c) (s'.withContent url c') := by
  have hself : Function.update s.samplesOn url c.samples = s.samplesOn := by
    rw [hc]
    exact Function.update_eq_self _ _
  have hself' : Function.update s'.samplesOn url c'.samples = s.samplesOn := by
    rw [hc', Function.update_eq_self, hs.samples]
  have hevolves : Evolves s (s.withContent url c) s.samplesOn :=
    ⟨hs.coherent.withContent url c (hc ▸ .refl _), rfl, s.answers_withContent url c,
      (s.samplesOn_withContent url c).trans hself, rfl⟩
  have hevolves' : Evolves s' (s'.withContent url c') s.samplesOn :=
    ⟨hs.coherent'.withContent url c' (hc' ▸ .refl _), rfl, s'.answers_withContent url c',
      (s'.samplesOn_withContent url c').trans hself', rfl⟩
  exact hs.evolve hevolves hevolves' fun url => .refl _

/-- Both runs get the same payload of the edge alone. -/
theorem agree_edgePayload (hv : v.url = .ok client.mcritServer)
    {fromSample fromSample' toSample toSample' : SampleRef}
    (hfrom : fromSample.sampleId = fromSample'.sampleId) (hto : toSample.sampleId = toSample'.sampleId) :
    AgreeOn rt fuel v T (fun payload payload' s s' =>
      PayloadsAlike fromSample.sampleId payload payload' ∧ Alike v ∅ s s')
      (edgePayload rt fuel client config fromSample toSample)
      (edgePayload rt fuel client config fromSample' toSample') := by
  unfold edgePayload
  have hstop : ((ask .stopRequested >>= fun stop => Prog.raiseIf (stop = true) PyError.stopped) :
      VisitProg Unit).OnlyCalls AroundVisit :=
    .bind (ask_onlyCalls ⟨id, id⟩) fun _ => onlyCalls_raiseIf _ _
  rw [← Prog.bind_assoc, ← Prog.bind_assoc]
  refine (agree_around hstop).bind' fun _ _ _ => ?_
  intro s s' hs
  rw [run_onServer, run_onServer, hs.answers, ← hfrom, ← hto]
  have hvs := matchSampleVs_onlyCalls rt fuel toSample.sampleId fromSample.sampleId
    (matchingParams config) {}
  have hsame := (s.servers client.mcritServer).steady.vs (s.samplesOn client.mcritServer)
    (s.servers client.mcritServer).content.asked (s'.servers client.mcritServer).content.asked
    toSample.sampleId fromSample.sampleId (matchingParams config)
  refine (EndsAlike.of_outcomeRel (OutcomeRel.and_left
    (V := SameRows fromSample.sampleId) ?_ fun payload hpayload => ?_)
    (alike_withContent hs (samples_run hvs _) (samples_run hvs _))).mono (fun _ _ h => h.forget)
    fun _ _ _ _ h => ⟨h.1, h.2.forget⟩
  · rw [hs.content]
    exact .of_eq (fun _ => ⟨rfl, fun _ _ => rfl⟩) hsame
  · exact (hs.fits _ hv).1 _ _ _ _ payload hpayload

/-- Both runs get payloads that read alike for the source sample. -/
theorem agree_matchPayload (hurl : clientServer config.server = .ok client.mcritServer)
    (hv : v.url = .ok client.mcritServer) {fromSample fromSample' toSample toSample' : SampleRef}
    (hfrom : fromSample.sampleId = fromSample'.sampleId) (hto : toSample.sampleId = toSample'.sampleId)
    {fromView : ViewId} (hview : v.fromNode.view = some fromView) {report : SmdaReport}
    (hreport : v.surroundings.exportReport fromView = .ok report) :
    AgreeOn rt fuel v {(report.sha256, fromSample.sampleId)} (fun payload payload' s s' =>
      PayloadsAlike fromSample.sampleId payload payload' ∧ Alike v ∅ s s')
      (matchPayload rt fuel client config v.toNode fromSample toSample)
      (matchPayload rt fuel client config v.toNode fromSample' toSample') := by
  unfold matchPayload
  refine Agree.bind' (V := PayloadsAlike fromSample.sampleId) (S := Alike v ∅) ?_
    fun payload payload' hpayload => ?_
  · split_ifs
    · exact agree_corpusPayload hurl hv hto (hview ▸ v.incoming) hreport
    · exact Agree.ret fun s s' hs => ⟨payloadsAlike_null _, hs.forget⟩
  · rw [← hpayload.1.1]
    split_ifs
    · exact agree_edgePayload hv hfrom hto
    · exact Agree.ret fun s s' hs => ⟨hpayload, hs⟩

/-! ## Visits -/

/-- Both runs find the same offsets and labels. -/
theorem agree_lookupTargets (htext : clientServer config.server = .ok client.mcritServer)
    {fids : List ℤ} (hfids : fids.length ≤ functionOffsetItems) :
    AgreeOn rt fuel v T (fun targets targets' s s' => targets = targets' ∧ Alike v T s s')
      (lookupTargets rt client config.server fids) (lookupTargets rt client config.server fids) := by
  intro s s' hs
  obtain ⟨hout, hevolves⟩ := lookupTargets_run (v := v) hs.coherent htext hfids
  obtain ⟨hout', hevolves'⟩ := lookupTargets_run (v := v) hs.coherent' htext hfids
  have hcurrent : currentTarget (s'.servers client.mcritServer) =
      currentTarget (s.servers client.mcritServer) := by
    funext fid
    unfold currentTarget
    rw [hs.answers, hs.content]
  rw [hcurrent] at hout'
  rw [hs.samples] at hevolves'
  refine (EndsAlike.of_outcomeRel (.of_eq (V := Eq) (fun _ => rfl) (hout.trans hout'.symm))
    (hs.evolve hevolves hevolves' fun url => .refl _)).mono (fun _ _ h => h.forget) fun _ _ _ _ h => h

/-- From payloads that read alike both runs emit the same. -/
theorem agree_visitPayload (htext : clientServer config.server = .ok client.mcritServer)
    {fromSample fromSample' : SampleRef} (hfrom : fromSample.sampleId = fromSample'.sampleId)
    {payload payload' : Json} (hpayload : PayloadsAlike fromSample.sampleId payload payload')
    (fromView : ViewId) (report : SmdaReport) :
    AgreeOn rt fuel v T (fun a b s s' => a = b ∧ Alike v T s s')
      (visitPayload rt v.fromNode v.toNode fromView config client report fromSample payload)
      (visitPayload rt v.fromNode v.toNode fromView config client report fromSample' payload') := by
  have hfilter : visitFilter config fromSample' = visitFilter config fromSample := by
    unfold visitFilter
    rw [hfrom]
  unfold visitPayload
  rw [hfilter, ← hpayload.1.2 _ rfl]
  refine (Agree.ofExcept _ fun _ _ h => h.forget).bind' fun matched matched' hmatched => ?_
  obtain ⟨rfl, hparse⟩ := hmatched
  refine (agree_lookupTargets htext (hpayload.2 _ _ hparse)).bind' fun targets targets' htargets => ?_
  subst htargets
  refine (agree_advance _).bind' fun _ _ _ => agree_around ?_
  exact .bind (ask_onlyCalls ⟨id, id⟩) fun listed =>
    .bind (targetEntities_onlyCalls ambient_aroundVisit _ _ _ _) fun targetIndex =>
      emitMatches_onlyCalls (fun _ hserver hcached => ⟨hserver, hcached⟩) _ _ _ _ _ _

/-- Both runs resolve the server of the visit. -/
theorem agree_resolve : AgreeOn rt fuel v T (fun config config' s s' =>
    (config = config' ∧ v.url = clientServer config.server) ∧ Alike v T s s')
      (resolve (fun corpus => ask (.endpoint corpus) >>= Prog.ofExcept) v.config)
      (resolve (fun corpus => ask (.endpoint corpus) >>= Prog.ofExcept) v.config) := by
  cases hb : isBuiltin v.config.server with
  | false =>
    rw [resolve_remote hb]
    exact Agree.ret fun s s' hs => ⟨⟨rfl, by simp [VisitCall.url, hb]⟩, hs⟩
  | true =>
    rw [resolve_builtin hb]
    have hendpoint : AgreeOn rt fuel v T (fun a b s s' =>
        (a = b ∧ v.surroundings.endpoint v.config.builtinCorpus = .ok a) ∧ Alike v T s s')
          (ask (.endpoint v.config.builtinCorpus) >>= Prog.ofExcept)
          (ask (.endpoint v.config.builtinCorpus) >>= Prog.ofExcept) :=
      fun s s' hs => Agree.ofExcept (v.surroundings.endpoint v.config.builtinCorpus)
        (fun _ _ h => h.forget) s s' hs
    refine hendpoint.bind' fun started started' hstarted => ?_
    obtain ⟨rfl, hstarted⟩ := hstarted
    refine Agree.ret fun s s' hs => ⟨⟨rfl, ?_⟩, hs⟩
    simp only [VisitCall.url, hb, hstarted]
    rfl

/-- What the two runs of a visit have at hand. -/
structure SetupsAlike (v : VisitCall) (fromView : ViewId) (x x' : VisitSetup) : Prop where
  config : x'.config = x.config
  client : x'.client = x.client
  report : x'.fromReport = x.fromReport
  fromSample : x.fromSample.sampleId = x'.fromSample.sampleId
  toSample : x.toSample.sampleId = x'.toSample.sampleId
  exported : v.surroundings.exportReport fromView = .ok x.fromReport
  server : clientServer x.config.server = .ok x.client.mcritServer
  url : v.url = .ok x.client.mcritServer

theorem agree_visitSetup (fromView toView : ViewId) :
    AgreeOn rt fuel v ∅ (fun x x' s s' => SetupsAlike v fromView x x' ∧
      Alike v {(x.fromReport.sha256, x.fromSample.sampleId)} s s')
      (visitSetup rt fuel fromView toView v.config) (visitSetup rt fuel fromView toView v.config) := by
  unfold visitSetup
  refine (agree_advance _).bind' fun _ _ _ => ?_
  refine (agree_exportReport fromView).bind' fun fromReport fromReport' hfrom => ?_
  obtain ⟨rfl, hfrom⟩ := hfrom
  refine (agree_advance _).bind' fun _ _ _ => ?_
  refine (agree_exportReport toView).bind' fun toReport toReport' hto => ?_
  obtain ⟨rfl, hto⟩ := hto
  refine (agree_advance _).bind' fun _ _ _ => ?_
  refine agree_resolve.bind' fun config config' hconfig => ?_
  obtain ⟨rfl, hurl⟩ := hconfig
  refine (Agree.ofExcept _ fun _ _ h => h.forget).bind' fun client client' hclient => ?_
  obtain ⟨rfl, hclient⟩ := hclient
  have hserver : clientServer config.server = .ok client.mcritServer := clientServer_of_newClient hclient
  have hv : v.url = .ok client.mcritServer := hurl.trans hserver
  refine (agree_sample hserver hv fromReport _).bind fun ref ref' t t' href => ?_
  refine (agree_advance _).bind' (fun _ _ _ => ?_) t t' href.2
  refine (agree_sample hserver hv toReport _).bind fun ref₂ ref₂' u u' href₂ => ?_
  refine (agree_advance _).bind' (fun _ _ _ => ?_) u u' href₂.2
  refine Agree.ret fun s s' hs => ⟨⟨rfl, rfl, rfl, href.1, href₂.1, hfrom, hserver, hv⟩, hs.weaken ?_⟩
  intro x hx
  rw [Set.mem_singleton_iff.1 hx]
  exact Set.mem_insert_of_mem _ (Set.mem_insert _ _)

/-- From alike states a visit emits the same. -/
theorem agree_visit : AgreeOn rt fuel v ∅ (fun a b s s' => a = b ∧ Alike v ∅ s s')
    (performVisitNodeEdge rt fuel v.fromNode v.toNode v.config)
    (performVisitNodeEdge rt fuel v.fromNode v.toNode v.config) := by
  refine Agree.tryCatch ?_ fun e => agree_around (visitFailed_onlyCalls ⟨id, id⟩ e)
  unfold visitEdge
  split_ifs
  · exact Agree.ret fun s s' hs => ⟨rfl, hs⟩
  split
  · next fromView toView hfrom hto =>
    refine (agree_visitSetup fromView toView).bind fun x x' t t' hx => ?_
    obtain ⟨hx, halike⟩ := hx
    rw [hx.config, hx.client, hx.report]
    refine (agree_matchPayload hx.server hx.url hx.fromSample hx.toSample hfrom hx.exported).bind'
      (fun payload payload' hpayload => ?_) t t' halike
    exact (agree_advance _).bind' fun _ _ _ =>
      agree_visitPayload hx.server hx.fromSample hpayload fromView x.fromReport
  · exact Agree.ret fun s s' hs => ⟨rfl, hs⟩

end Lookups

end McritSimilarity

import McritSimilarity.Session
import McritSimilarity.VisitCalls

/-!
# Uploads to remote servers

Uploads to a remote server should be opt-in.  `persist_samples` is registered once, from the global
server of that moment, and keeps its value when the server of the session is edited afterwards:
`uploadsOptIn_iff` says that uploads are opt-in exactly when the global server was remote when the
settings of the session were registered.
-/

set_option autoImplicit false

namespace McritSimilarity

open Python Prog

/-- The step sets `persist_samples`. -/
def SessionLabel.SetsPersist : SessionLabel → Prop
  | .edit (.set key _) => key = "persist_samples"
  | _ => False

def Uploads (trace : List (Event VisitI)) : Prop := ∃ e ∈ trace, VisitOp.IsUpload e.1

/-- Neither the built-in server nor a loopback URL. -/
def IsRemote (server : String) : Prop := isLocal server ≠ .ok true

/-- Settings registered under the global settings `g` and edited without setting `persist_samples`
never lead a visit to upload to a remote server. -/
def UploadsOptIn (rt : Runtime) (g : GlobalSettings) : Prop :=
  ∀ s₀, defaultProviderSettings g = .ok s₀ →
    ∀ tr s, Steps (restrict (sessionStep rt) fun _ l => ¬ l.SetsPersist) ⟨s₀, none⟩ tr s →
      ∀ fuel fromNode toNode trace out t,
        sessionStep rt s (.visit fuel fromNode toNode trace out) t →
        ∀ last, s.config = some last → IsRemote (currentConfig s.settings last).server →
          ¬ Uploads trace

/-! ## A visit without `persist_samples` -/

theorem permits_notUpload (rt : Runtime) (fuel : ℕ) {config : ProviderConfig}
    (hpersist : config.persistSamples = false) :
    Permits rt fuel config fun o => ¬ VisitOp.IsUpload o where
  plain := fun _ ho _ _ => ho
  claims := fun _ ho _ => ho.not_isUpload
  ensure := fun client report start stop opts => by
    refine (ensureSample_onlyCalls rt fuel client.mcritServer report hpersist opts).lift fun o ho => ?_
    cases o with
    | server o =>
      cases o with
      | addReport upload => exact ho.elim
      | _ => exact id
    | _ => exact id

/-- On a server of its own and without `persist_samples`, a visit never uploads. -/
theorem performVisitNodeEdge_notUpload (rt : Runtime) (fuel : ℕ) {config : ProviderConfig}
    (hpersist : config.persistSamples = false) (hserver : isBuiltin config.server = false)
    (fromNode toNode : SessionNode) :
    (performVisitNodeEdge rt fuel fromNode toNode config).OnlyCalls
      fun o => ¬ VisitOp.IsUpload o := by
  refine .tryCatch ?_ (visitFailed_onlyCalls id)
  unfold visitEdge
  split_ifs
  · trivial
  · split
    · next fromView toView _ _ =>
      have hpermits := permits_notUpload rt fuel hpersist
      have hsetup : (visitSetup rt fuel fromView toView config).OnlyCalls
          fun o => ¬ VisitOp.IsUpload o := by
        refine visitSetup_onlyCalls fromView toView hpermits.plain fun config' hconfig' => ?_
        rw [hconfig' hserver]
        exact hpermits
      refine .bind_returns hsetup (returns_visitSetup rt fuel hserver fromView toView) fun s hs => ?_
      rw [← hs] at hpermits
      exact .bind (matchPayload_onlyCalls hpermits s.client toNode _ _) fun payload =>
        .bind (advance_onlyCalls hpermits.plain.ambient _) fun _ =>
          visitPayload_onlyCalls (fun o ho => ho) _ _ _ _ _ _ _ _
    · trivial

/-! ## The setting of a session -/

/-- What the steps other than setting `persist_samples` keep: it reads as it was registered. -/
structure KeepsPersist (persist : Bool) (s : SettingsObj) : Prop where
  registered : s.registered "persist_samples" = some (.bool persist)
  user : s.user "persist_samples" = none

theorem KeepsPersist.persistSamples {persist : Bool} {s : SettingsObj} (h : KeepsPersist persist s)
    (base : ProviderConfig) : (configFromSettings s base).persistSamples = persist := by
  have hread : readSetting s "persist_samples" (fieldValue base "persist_samples") =
      .bool persist := by
    unfold readSetting SettingsObj.contains SettingsObj.read
    simp [h.registered, h.user]
  have hvalue : (configFromSettings s base).persistSamples =
      asBool (readSetting s "persist_samples" (fieldValue base "persist_samples"))
        base.persistSamples := rfl
  rw [hvalue, hread, asBool_bool]

theorem keepsPersist_step {rt : Runtime} {persist : Bool} {s t : Session} {l : SessionLabel}
    (hs : KeepsPersist persist s.settings) (hl : ¬ l.SetsPersist) (hstep : sessionStep rt s l t) :
    KeepsPersist persist t.settings := by
  cases l with
  | edit e =>
    obtain rfl : t = { s with settings := e.apply s.settings } := hstep
    cases e with
    | set key value =>
      have hkey : "persist_samples" ≠ key := fun h => hl h.symm
      exact ⟨hs.registered, by simp only [Edit.apply, if_neg hkey, hs.user]⟩
    | reset key =>
      refine ⟨hs.registered, ?_⟩
      simp only [Edit.apply]
      split_ifs
      · rfl
      · exact hs.user
  | create g =>
    obtain ⟨-, rfl⟩ := hstep
    exact hs
  | updateSettings g =>
    obtain ⟨-, rfl⟩ := hstep
    exact hs
  | apply =>
    obtain ⟨last, -, rfl⟩ := hstep
    exact hs
  | visit fuel fromNode toNode trace out =>
    obtain ⟨last, -, -, rfl⟩ := hstep
    exact hs

theorem defaultProviderSettings_eq {g : GlobalSettings} {s₀ : SettingsObj}
    (h : defaultProviderSettings g = .ok s₀) :
    ∃ isLocalServer, isLocal (currentServer g) = .ok isLocalServer ∧
      KeepsPersist isLocalServer s₀ := by
  unfold defaultProviderSettings at h
  cases hlocal : isLocal (currentServer g) with
  | error e =>
    rw [hlocal] at h
    cases h
  | ok isLocalServer =>
    rw [hlocal] at h
    cases h
    exact ⟨isLocalServer, rfl, rfl, rfl⟩

theorem contains_defaultProviderSettings {g : GlobalSettings} {s₀ : SettingsObj}
    (h : defaultProviderSettings g = .ok s₀) : s₀.contains "server" = true := by
  unfold defaultProviderSettings at h
  cases hlocal : isLocal (currentServer g) with
  | error e =>
    rw [hlocal] at h
    cases h
  | ok isLocalServer =>
    rw [hlocal] at h
    cases h
    rfl

/-- Settings registered under a remote global server keep uploads off in every run. -/
theorem uploadsOptIn_of_remote (rt : Runtime) {g : GlobalSettings}
    (hg : IsRemote (currentServer g)) : UploadsOptIn rt g := by
  rintro s₀ hs₀ tr s hrun fuel fromNode toNode trace out t hvisit last hlast hremote
  obtain ⟨persist, hlocal, hinit⟩ := defaultProviderSettings_eq hs₀
  have hfalse : persist = false := by
    cases persist with
    | false => rfl
    | true => exact absurd hlocal hg
  subst hfalse
  have hs : KeepsPersist false s.settings :=
    hrun.invariant (P := fun s => KeepsPersist false s.settings) (fun _ _ _ hs h => keepsPersist_step hs h.1 h.2) hinit
  have hserver : isBuiltin (currentConfig s.settings last).server = false := by
    by_contra hb
    rw [Bool.not_eq_false] at hb
    exact hremote (by rw [isLocal, if_pos hb])
  have hpersist : (currentConfig s.settings last).persistSamples = false := by
    rw [currentConfig_eq]
    exact hs.persistSamples last
  obtain ⟨last', hlast', hexec, -⟩ := hvisit
  obtain rfl : last = last' := Option.some.inj (hlast.symm.trans hlast')
  rintro ⟨e, he, hupload⟩
  exact (performVisitNodeEdge_notUpload rt fuel hpersist hserver fromNode toNode).exec hexec e he
    hupload

/-! ## A session that turns to a remote server -/

/-- Some answers lead the program to an upload. -/
def MayUpload {α : Type} (p : VisitProg α) : Prop :=
  ∃ trace, Exec p trace .pending ∧ Uploads trace

section MayUpload

variable {α β : Type} {p : VisitProg α}

theorem MayUpload.bind (h : MayUpload p) (f : α → VisitProg β) : MayUpload (p >>= f) := by
  obtain ⟨trace, hexec, hup⟩ := h
  exact ⟨trace, hexec.bind_pending, hup⟩

theorem MayUpload.after {trace : List (Event VisitI)} {a : α} {f : α → VisitProg β}
    (h : MayUpload (f a)) (hp : Exec p trace (.returned a)) : MayUpload (p >>= f) := by
  obtain ⟨rest, hexec, e, he, hup⟩ := h
  exact ⟨trace ++ rest, hp.bind hexec, e, List.mem_append_right _ he, hup⟩

theorem MayUpload.tryCatch (h : MayUpload p) (f : PyError → VisitProg α) :
    MayUpload (p.tryCatch f) := by
  obtain ⟨trace, hexec, hup⟩ := h
  exact ⟨trace, hexec.tryCatch_pending, hup⟩

theorem MayUpload.tryFinally (h : MayUpload p) (f : VisitProg Unit) :
    MayUpload (p.tryFinally f) := by
  obtain ⟨trace, hexec, hup⟩ := h
  exact ⟨trace, hexec.tryFinally_pending, hup⟩

end MayUpload

/-- With `persist_samples`, a lookup that finds nothing is followed by an upload. -/
theorem mayUpload_sample (rt : Runtime) (client : McritClient) {config : ProviderConfig}
    (hpersist : config.persistSamples = true) (span : Span) :
    MayUpload (sample rt 0 client config emptyReport span) := by
  refine MayUpload.after (a := Claim.claimed) ?_ (exec_ask (.claimSample _) .claimed)
  refine (MayUpload.bind ?_ _).tryFinally _
  let upload : Upload := ⟨emptyReport, config.family, config.version⟩
  have hsha : ¬ emptyReport.sha256 = "" := by decide
  refine ⟨[⟨.server client (.getSampleBySha256 "aa"), Except.ok none⟩,
    ⟨.server client (.addReport upload), Except.ok Json.null⟩], ?_, ?_⟩
  · unfold ensureSample
    rw [raiseIf_neg hsha]
    simp only [sampleLabels, hpersist, not_true_eq_false, raiseIf_neg not_false, ret_bind]
    exact .call (I := VisitI) (o := .server client (.getSampleBySha256 "aa")) (Except.ok none)
      (.call (I := VisitI) (o := .server client (.addReport upload)) (Except.ok Json.null)
        (.pending _))
  · exact ⟨_, List.mem_cons_of_mem _ (List.mem_singleton_self _), trivial⟩

def sourceNode : SessionNode := ⟨1, some 0, [1], []⟩

def targetNode : SessionNode := ⟨2, some 1, [1], []⟩

theorem mayUpload_visit (rt : Runtime) {config : ProviderConfig}
    (hserver : config.server = remoteServer) (hpersist : config.persistSamples = true) :
    MayUpload (performVisitNodeEdge rt 0 targetNode sourceNode config) := by
  obtain ⟨client, hclient⟩ := clientFor_remoteServer hserver
  have hbuiltin := isBuiltin_remoteServer hserver
  have hsetup : MayUpload (visitSetup rt 0 1 0 config) := by
    unfold visitSetup
    simp only [resolve_remote hbuiltin, pure_eq_ret, ret_bind, hclient, Prog.ofExcept]
    exact .after (.after (.after (.after (.after ((mayUpload_sample rt client hpersist _).bind _)
      (exec_advance _)) (exec_exportReport 0 emptyReport)) (exec_advance _))
      (exec_exportReport 1 emptyReport)) (exec_advance _)
  exact .tryCatch (hsetup.bind _) _

theorem server_configFromSettings {s : SettingsObj} (hcontains : s.contains "server" = true)
    (huser : s.user "server" = some (.str remoteServer)) (base : ProviderConfig) :
    (configFromSettings s base).server = remoteServer := by
  have hread : readSetting s "server" (fieldValue base "server") = .str remoteServer := by
    unfold readSetting SettingsObj.read
    rw [if_pos hcontains, huser]
  have hschema : (providerSchema.lookup "server").isSome = true := by decide
  have hfrom : serverFrom (.str remoteServer) base.server = remoteServer := by
    have hstrip : strip remoteServer = remoteServer := by decide
    have hne : remoteServer ≠ "" := by decide
    simp only [serverFrom, asStr, hstrip, if_neg hne]
    decide
  rw [configFromSettings, server_configFromValues, if_pos hschema, hread, hfrom]

/-- The global settings of a fresh installation. -/
def freshGlobals : GlobalSettings := ⟨none, none, .ok "", none, none⟩

theorem createConfig_freshGlobals (s : SettingsObj) :
    ∃ base, createConfig freshGlobals s = some (configFromSettings s base) := by
  have htoken : freshGlobals.token = .ok "" := rfl
  obtain ⟨base, hbase⟩ : ∃ base, globalDefaults freshGlobals = .ok base := by
    unfold globalDefaults
    rw [htoken, ok_bind]
    simp only [pure, Except.pure, Except.ok.injEq, exists_eq']
  refine ⟨base, ?_⟩
  simp only [createConfig, hbase, if_neg (configFromSettings_server_ne s base)]

/-- Settings registered under a local global server lead to an upload to a remote one. -/
theorem not_uploadsOptIn_of_local (rt : Runtime) {g : GlobalSettings}
    (hg : isLocal (currentServer g) = .ok true) : ¬ UploadsOptIn rt g := by
  intro hoptIn
  obtain ⟨s₀, hs₀⟩ : ∃ s₀, defaultProviderSettings g = .ok s₀ := by
    unfold defaultProviderSettings
    rw [hg]
    exact ⟨_, rfl⟩
  obtain ⟨persist, hlocal, hinit⟩ := defaultProviderSettings_eq hs₀
  obtain rfl : true = persist := Except.ok.inj (hg.symm.trans hlocal)
  let e : Edit := .set "server" (.str remoteServer)
  have hkey : "server" ≠ "persist_samples" := by decide
  have he : ¬ (SessionLabel.edit e).SetsPersist := hkey
  have hkeeps : KeepsPersist true (e.apply s₀) :=
    keepsPersist_step hinit he
      (show sessionStep rt ⟨s₀, none⟩ (.edit e) ⟨e.apply s₀, none⟩ from rfl)
  have hcontains : s₀.contains "server" = true := contains_defaultProviderSettings hs₀
  have hserver := server_configFromSettings (s := e.apply s₀) hcontains rfl
  obtain ⟨base, hcreate⟩ := createConfig_freshGlobals (e.apply s₀)
  -- The run edits the server, creates the provider and makes one visit.
  let s : Session := ⟨e.apply s₀, some (configFromSettings (e.apply s₀) base)⟩
  have hrun : Steps (restrict (sessionStep rt) fun _ l => ¬ l.SetsPersist) ⟨s₀, none⟩
      [.edit e, .create freshGlobals] s :=
    .cons ⟨he, rfl⟩ (.single ⟨id, rfl, by rw [hcreate]⟩)
  let config := currentConfig s.settings (configFromSettings (e.apply s₀) base)
  have hconfig : config = configFromSettings (e.apply s₀) (configFromSettings (e.apply s₀) base) :=
    currentConfig_eq _ _
  have hremote : config.server = remoteServer := by rw [hconfig, hserver]
  have hpersist : config.persistSamples = true := by rw [hconfig, hkeeps.persistSamples]
  obtain ⟨trace, hexec, hup⟩ := mayUpload_visit rt hremote hpersist
  refine hoptIn s₀ hs₀ _ s hrun 0 targetNode sourceNode trace .pending _
    ⟨_, rfl, hexec, rfl⟩ _ rfl ?_ hup
  rw [currentConfig_eq, hserver]
  have hlocal : isLocal remoteServer = .ok false := by decide
  rw [IsRemote, hlocal]
  nofun

/-- Uploads are opt-in exactly under a global server that was remote when the settings of the session
were registered. -/
theorem uploadsOptIn_iff (rt : Runtime) (g : GlobalSettings) :
    UploadsOptIn rt g ↔ IsRemote (currentServer g) := by
  constructor
  · intro hoptIn hg
    exact not_uploadsOptIn_of_local rt hg hoptIn
  · exact uploadsOptIn_of_remote rt

theorem not_uploadsOptIn_freshGlobals :
    ¬ UploadsOptIn ⟨fun _ => none, fun _ => ""⟩ freshGlobals :=
  not_uploadsOptIn_of_local _ (by decide)

end McritSimilarity

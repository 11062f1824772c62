import McritSimilarity.Python.Strip
import McritSimilarity.Session

/-!
# What settings are remembered

A setting that falls back in one reading takes the value that the last configuration has, so
`_current_config` remembers what the setting said before.  `own s k` is what a settings object itself says of
the setting `k`, and a configuration is its own value of each setting over the value of its base
(`configFromSettings_get`).
-/

set_option autoImplicit false

namespace McritSimilarity

open Python

/-! ## Values -/

/-- The number a value gives; `none` where `_as_int` falls back. -/
def numberOf (minimum maximum : ℤ) : Value → Option ℤ
  | .int n => some (clampInt minimum maximum n)
  | .str s => (intOfText s).map (clampInt minimum maximum)
  | _ => none

def flagOf : Value → Option Bool
  | .bool b => some b
  | .str s =>
    let lowered := lower (strip s)
    if lowered = "true" ∨ lowered = "1" ∨ lowered = "yes" then some true
    else if lowered = "false" ∨ lowered = "0" ∨ lowered = "no" then some false
    else none
  | .int n => some (n ≠ 0)
  | .none => none

def textOf : Value → Option String
  | .none => none
  | value => some (strip (asStr value))

/-- A blank server falls back. -/
def serverOf (value : Value) : Option String :=
  (textOf value).bind fun server => if server = "" then none else some (normalizeServer server)

/-- A server as configurations have it. -/
structure NormalServer (server : String) : Prop where
  stripped : strip server = server
  ne : server ≠ ""
  normal : normalizeServer server = server

theorem asInt_eq (value : Value) (default minimum maximum : ℤ) :
    asInt value default minimum maximum = (numberOf minimum maximum value).getD default := by
  cases value with
  | str s =>
    simp only [asInt, numberOf]
    cases intOfText s <;> rfl
  | _ => rfl

theorem asBool_eq (value : Value) (default : Bool) : asBool value default = (flagOf value).getD default := by
  cases value with
  | str s =>
    simp only [asBool, flagOf]
    split_ifs <;> rfl
  | _ => rfl

theorem strip_asStr (value : Value) {default : String} (h : strip default = default) :
    strip (asStr value default) = (textOf value).getD default := by
  cases value with
  | none => exact h
  | _ => rfl

theorem isBuiltin_append_slash {server : String} (h : strip server = server) (hne : server ≠ "") :
    isBuiltin (server ++ "/") = false := by
  unfold isBuiltin
  rw [strip_append_slash h hne, decide_eq_false_iff_not]
  intro hbuiltin
  have hlast := congrArg (fun s : String => s.toList.getLast?) hbuiltin
  have hslash : (lower (server ++ "/")).toList.getLast? = some '/' := by
    unfold lower
    rw [String.toList_ofList, String.toList_append, List.map_append, List.getLast?_append]
    rfl
  simp only [hslash] at hlast
  exact absurd hlast (by decide)

theorem normalServer_normalizeServer {server : String} (h : strip server = server) (hne : server ≠ "") :
    NormalServer (normalizeServer server) := by
  unfold normalizeServer
  split_ifs with hbuiltin hslash
  · exact ⟨by decide, by decide, by decide⟩
  · exact ⟨h, hne, by rw [normalizeServer, if_neg hbuiltin, if_pos hslash]⟩
  · have hlast : (server ++ "/").toList.getLast? = some '/' := by
      rw [String.toList_append, List.getLast?_append]
      rfl
    refine ⟨strip_append_slash h hne, ?_, ?_⟩
    · intro hnil
      rw [hnil] at hlast
      cases hlast
    · rw [normalizeServer, if_neg (by simp [isBuiltin_append_slash h hne]), if_pos hlast]

theorem serverFrom_eq (value : Value) {base : String} (h : NormalServer base) :
    serverFrom value base = (serverOf value).getD base := by
  unfold serverFrom serverOf
  rw [strip_asStr value h.stripped]
  cases textOf value with
  | none =>
    simp only [Option.getD_none, if_neg h.ne, Option.bind_none]
    exact h.normal
  | some server =>
    simp only [Option.getD_some, Option.bind_some]
    by_cases hblank : server = ""
    · rw [if_pos hblank, if_pos hblank, Option.getD_none]
      exact h.normal
    · rw [if_neg hblank, if_neg hblank, Option.getD_some]

theorem normalServer_serverFrom (value : Value) {base : String} (h : NormalServer base) :
    NormalServer (serverFrom value base) := by
  simp only [serverFrom]
  by_cases hblank : strip (asStr value base) = ""
  · rw [if_pos hblank, h.normal]
    exact h
  · rw [if_neg hblank]
    exact normalServer_normalizeServer (strip_strip _) hblank

/-! ## Configurations -/

/-- A configuration as `config_from_values` returns it. -/
structure ProviderConfig.Normal (c : ProviderConfig) : Prop where
  server : NormalServer c.server
  username : strip c.username = c.username
  apiToken : strip c.apiToken = c.apiToken
  timeout : clampInt 1 3600 c.timeout = c.timeout
  minhashThreshold : clampInt 0 100 c.minhashThreshold = c.minhashThreshold
  pichashSize : clampInt 0 1000 c.pichashSize = c.pichashSize
  bandMatchesRequired : clampInt 1 64 c.bandMatchesRequired = c.bandMatchesRequired
  maxResults : clampInt 1 50 c.maxResults = c.maxResults
  family : strip c.family = c.family
  version : strip c.version = c.version
  builtinCorpus : strip c.builtinCorpus = c.builtinCorpus

theorem clampInt_asInt (value : Value) {default minimum maximum : ℤ} (hle : minimum ≤ maximum)
    (h : clampInt minimum maximum default = default) :
    clampInt minimum maximum (asInt value default minimum maximum) = asInt value default minimum maximum := by
  have hclamp : ∀ n, clampInt minimum maximum (clampInt minimum maximum n) = clampInt minimum maximum n := by
    intro n
    unfold clampInt
    omega
  rw [asInt_eq]
  cases hvalue : numberOf minimum maximum value with
  | none => exact h
  | some n =>
    obtain ⟨m, rfl⟩ : ∃ m, n = clampInt minimum maximum m := by
      cases value with
      | int m => exact ⟨m, (Option.some.inj hvalue).symm⟩
      | str s =>
        obtain ⟨m, -, hm⟩ := Option.map_eq_some_iff.1 hvalue
        exact ⟨m, hm.symm⟩
      | bool b => cases hvalue
      | none => cases hvalue
    exact hclamp m

theorem normal_default : ({} : ProviderConfig).Normal := by
  refine ⟨⟨?_, ?_, ?_⟩, ?_, ?_, ?_, ?_, ?_, ?_, ?_, ?_, ?_, ?_⟩ <;> decide

theorem asNumber_eq {key : String} {minimum maximum : ℤ} (h : numberRanges.lookup key = some (minimum, maximum))
    (value : Value) (default : ℤ) : asNumber key value default = asInt value default minimum maximum := by
  unfold asNumber
  rw [h]

theorem clampInt_asNumber {key : String} {minimum maximum : ℤ}
    (hkey : numberRanges.lookup key = some (minimum, maximum)) (hle : minimum ≤ maximum) (value : Value)
    {default : ℤ} (h : clampInt minimum maximum default = default) :
    clampInt minimum maximum (asNumber key value default) = asNumber key value default := by
  rw [asNumber_eq hkey]
  exact clampInt_asInt value hle h

theorem ProviderConfig.Normal.configFromValues (values : String → Value) {base : ProviderConfig} (h : base.Normal) :
    (configFromValues values base).Normal where
  server := by
    rw [server_configFromValues]
    exact normalServer_serverFrom (values "server") h.server
  username := strip_strip (asStr (values "username") base.username)
  apiToken := strip_strip (asStr (values "api_token") base.apiToken)
  timeout := @clampInt_asNumber "timeout" 1 3600 rfl (by decide) (values "timeout") _ h.timeout
  minhashThreshold := @clampInt_asNumber "minhash_threshold" 0 100 rfl (by decide) _ _ h.minhashThreshold
  pichashSize := @clampInt_asNumber "pichash_size" 0 1000 rfl (by decide) _ _ h.pichashSize
  bandMatchesRequired := @clampInt_asNumber "band_matches_required" 1 64 rfl (by decide) _ _ h.bandMatchesRequired
  maxResults := @clampInt_asNumber "max_results" 1 50 rfl (by decide) _ _ h.maxResults
  family := strip_strip (asStr (values "family") base.family)
  version := strip_strip (asStr (values "version") base.version)
  builtinCorpus := strip_strip (asStr (values "builtin_corpus") base.builtinCorpus)

theorem normal_globalDefaults {g : GlobalSettings} {config : ProviderConfig} (h : globalDefaults g = .ok config) :
    config.Normal := by
  unfold globalDefaults at h
  cases htoken : g.token with
  | error e =>
    rw [htoken] at h
    cases h
  | ok token =>
    rw [htoken] at h
    rw [← Except.ok.inj h]
    exact normal_default.configFromValues _

/-! ## Settings -/

/-- The settings of a session. -/
inductive Key where
  | server
  | minhashThreshold
  | pichashSize
  | bandMatchesRequired
  | maxResults
  | includeLibrary
  | persistSamples
  | applyCorpusLabels
  | queryPerNode
  | family
  | version
  deriving DecidableEq, Repr

namespace Key

def name : Key → String
  | server => "server"
  | minhashThreshold => "minhash_threshold"
  | pichashSize => "pichash_size"
  | bandMatchesRequired => "band_matches_required"
  | maxResults => "max_results"
  | includeLibrary => "include_library"
  | persistSamples => "persist_samples"
  | applyCorpusLabels => "apply_corpus_labels"
  | queryPerNode => "query_per_node"
  | family => "family"
  | version => "version"

@[reducible] def Kind : Key → Type
  | server | family | version => String
  | minhashThreshold | pichashSize | bandMatchesRequired | maxResults => ℤ
  | includeLibrary | persistSamples | applyCorpusLabels | queryPerNode => Bool

/-- What a value says of the setting; `none` where the setting falls back. -/
def parse : (k : Key) → Value → Option k.Kind
  | server => serverOf
  | minhashThreshold => numberOf 0 100
  | pichashSize => numberOf 0 1000
  | bandMatchesRequired => numberOf 1 64
  | maxResults => numberOf 1 50
  | includeLibrary | persistSamples | applyCorpusLabels | queryPerNode => flagOf
  | family | version => textOf

end Key

def ProviderConfig.get (c : ProviderConfig) : (k : Key) → k.Kind
  | .server => c.server
  | .minhashThreshold => c.minhashThreshold
  | .pichashSize => c.pichashSize
  | .bandMatchesRequired => c.bandMatchesRequired
  | .maxResults => c.maxResults
  | .includeLibrary => c.includeLibrary
  | .persistSamples => c.persistSamples
  | .applyCorpusLabels => c.applyCorpusLabels
  | .queryPerNode => c.queryPerNode
  | .family => c.family
  | .version => c.version

/-- What a settings object itself says of a setting. -/
def own (s : SettingsObj) (k : Key) : Option k.Kind :=
  if s.contains k.name then k.parse (s.read k.name) else none

section Get

variable (s : SettingsObj) {base : ProviderConfig}

theorem readSetting_number (key : String) {default minimum maximum : ℤ}
    (h : clampInt minimum maximum default = default) :
    asInt (readSetting s key (.int default)) default minimum maximum =
      (if s.contains key then numberOf minimum maximum (s.read key) else none).getD default := by
  unfold readSetting
  split_ifs
  · exact asInt_eq _ _ _ _
  · exact h

theorem readSetting_flag (key : String) (default : Bool) : asBool (readSetting s key (.bool default)) default =
    (if s.contains key then flagOf (s.read key) else none).getD default := by
  unfold readSetting
  split_ifs
  · exact asBool_eq _ _
  · rfl

theorem readSetting_text (key : String) {default : String} (h : strip default = default) :
    strip (asStr (readSetting s key (.str default)) default) =
      (if s.contains key then textOf (s.read key) else none).getD default := by
  unfold readSetting
  split_ifs
  · exact strip_asStr _ h
  · exact h

theorem readSetting_server {default : String} (h : NormalServer default) :
    serverFrom (readSetting s "server" (.str default)) default =
      (if s.contains "server" then serverOf (s.read "server") else none).getD default := by
  unfold readSetting
  split_ifs
  · exact serverFrom_eq _ h
  · have htext : textOf (.str default) = some default := congrArg some h.stripped
    have hserver : serverOf (.str default) = some default := by
      rw [serverOf, htext, Option.bind_some, if_neg h.ne, h.normal]
    rw [serverFrom_eq _ h, hserver]
    rfl

/-- The values that `config_from_settings` reads. -/
def settingsValues (base : ProviderConfig) (key : String) : Value :=
  if (providerSchema.lookup key).isSome then readSetting s key (fieldValue base key) else .none

theorem settingsValues_eq {key : String} {value : Value} (hkey : (providerSchema.lookup key).isSome = true)
    (hvalue : fieldValue base key = value) : settingsValues s base key = readSetting s key value := by
  unfold settingsValues
  rw [if_pos hkey, hvalue]

theorem settingsValues_number (key : String) {default minimum maximum : ℤ}
    (hlimits : numberRanges.lookup key = some (minimum, maximum)) (hkey : (providerSchema.lookup key).isSome = true)
    (hvalue : fieldValue base key = .int default) (h : clampInt minimum maximum default = default) :
    asNumber key (settingsValues s base key) default =
      (if s.contains key then numberOf minimum maximum (s.read key) else none).getD default := by
  rw [asNumber_eq hlimits, settingsValues_eq s hkey hvalue, readSetting_number s key h]

theorem settingsValues_flag {key : String} {default : Bool} (hkey : (providerSchema.lookup key).isSome = true)
    (hvalue : fieldValue base key = .bool default) : asBool (settingsValues s base key) default =
      (if s.contains key then flagOf (s.read key) else none).getD default := by
  rw [settingsValues_eq s hkey hvalue, readSetting_flag s key default]

theorem settingsValues_text {key : String} {default : String} (hkey : (providerSchema.lookup key).isSome = true)
    (hvalue : fieldValue base key = .str default) (h : strip default = default) :
    strip (asStr (settingsValues s base key) default) =
      (if s.contains key then textOf (s.read key) else none).getD default := by
  rw [settingsValues_eq s hkey hvalue, readSetting_text s key h]

theorem configFromSettings_eq : configFromSettings s base = configFromValues (settingsValues s base) base := rfl

theorem ProviderConfig.Normal.configFromSettings (h : base.Normal) : (configFromSettings s base).Normal := by
  rw [configFromSettings_eq]
  exact h.configFromValues _

/-- A configuration is what the settings say themselves, over its base. -/
theorem configFromSettings_get (h : base.Normal) (k : Key) :
    (configFromSettings s base).get k = (own s k).getD (base.get k) := by
  rw [configFromSettings_eq]
  cases k with
  | server =>
    show (configFromValues (settingsValues s base) base).server = _
    rw [server_configFromValues, settingsValues_eq s (by decide) rfl]
    exact readSetting_server s h.server
  | minhashThreshold => exact settingsValues_number s "minhash_threshold" (by decide) (by decide) rfl h.minhashThreshold
  | pichashSize => exact settingsValues_number s "pichash_size" (by decide) (by decide) rfl h.pichashSize
  | bandMatchesRequired =>
    exact settingsValues_number s "band_matches_required" (by decide) (by decide) rfl h.bandMatchesRequired
  | maxResults => exact settingsValues_number s "max_results" (by decide) (by decide) rfl h.maxResults
  | includeLibrary => exact settingsValues_flag s (by decide) rfl
  | persistSamples => exact settingsValues_flag s (by decide) rfl
  | applyCorpusLabels => exact settingsValues_flag s (by decide) rfl
  | queryPerNode => exact settingsValues_flag s (by decide) rfl
  | family => exact settingsValues_text s (by decide) rfl h.family
  | version => exact settingsValues_text s (by decide) rfl h.version

/-- Nothing else of the configuration changes. -/
structure SameGlobals (c d : ProviderConfig) : Prop where
  username : c.username = d.username
  apiToken : c.apiToken = d.apiToken
  timeout : c.timeout = d.timeout
  builtinCorpus : c.builtinCorpus = d.builtinCorpus

theorem settingsValues_none (key : String) (hkey : (providerSchema.lookup key).isSome = false) :
    settingsValues s base key = .none := by
  unfold settingsValues
  rw [hkey]
  exact if_neg Bool.false_ne_true

theorem asNumber_none (key : String) (default : ℤ) : asNumber key .none default = default := by
  unfold asNumber
  cases numberRanges.lookup key <;> rfl

theorem configFromSettings_globals (h : base.Normal) : SameGlobals (configFromSettings s base) base := by
  rw [configFromSettings_eq]
  refine ⟨?_, ?_, ?_, ?_⟩
  · simp only [configFromValues, settingsValues_none s "username" (by decide)]
    exact h.username
  · simp only [configFromValues, settingsValues_none s "api_token" (by decide)]
    exact h.apiToken
  · simp only [configFromValues, settingsValues_none s "timeout" (by decide), asNumber_none]
  · simp only [configFromValues, settingsValues_none s "builtin_corpus" (by decide)]
    exact h.builtinCorpus

end Get

theorem ProviderConfig.ext_get {c d : ProviderConfig} (hget : ∀ k, c.get k = d.get k) (h : SameGlobals c d) :
    c = d := by
  obtain ⟨husername, htoken, htimeout, hcorpus⟩ := h
  have hserver : c.server = d.server := hget .server
  have hminhash : c.minhashThreshold = d.minhashThreshold := hget .minhashThreshold
  have hpichash : c.pichashSize = d.pichashSize := hget .pichashSize
  have hbands : c.bandMatchesRequired = d.bandMatchesRequired := hget .bandMatchesRequired
  have hresults : c.maxResults = d.maxResults := hget .maxResults
  have hlibrary : c.includeLibrary = d.includeLibrary := hget .includeLibrary
  have hpersist : c.persistSamples = d.persistSamples := hget .persistSamples
  have hlabels : c.applyCorpusLabels = d.applyCorpusLabels := hget .applyCorpusLabels
  have hquery : c.queryPerNode = d.queryPerNode := hget .queryPerNode
  have hfamily : c.family = d.family := hget .family
  have hversion : c.version = d.version := hget .version
  cases c
  cases d
  simp_all only

/-! ## Readings -/

/-- The configuration after these readings. -/
def configAfter (base : ProviderConfig) (readings : List SettingsObj) : ProviderConfig :=
  readings.foldl (fun last s => configFromSettings s last) base

/-- What the last of the readings that do not fall back says of the setting. -/
def lastOwn (readings : List SettingsObj) (k : Key) : Option k.Kind :=
  readings.foldl (fun said s => (own s k).or said) none

theorem configAfter_cons (base : ProviderConfig) (s : SettingsObj) (readings : List SettingsObj) :
    configAfter base (s :: readings) = configAfter (configFromSettings s base) readings := by
  unfold configAfter
  rw [List.foldl_cons]

section Readings

variable {base : ProviderConfig} (h : base.Normal) (readings : List SettingsObj)

include h

theorem normal_configAfter : (configAfter base readings).Normal := by
  induction readings generalizing base with
  | nil => exact h
  | cons s readings ih =>
    rw [configAfter_cons]
    exact ih (h.configFromSettings s)

theorem configAfter_globals : SameGlobals (configAfter base readings) base := by
  induction readings generalizing base with
  | nil => exact ⟨rfl, rfl, rfl, rfl⟩
  | cons s readings ih =>
    rw [configAfter_cons]
    have hrest := ih (h.configFromSettings s)
    have hfirst := configFromSettings_globals s h
    exact ⟨hrest.username.trans hfirst.username, hrest.apiToken.trans hfirst.apiToken,
      hrest.timeout.trans hfirst.timeout, hrest.builtinCorpus.trans hfirst.builtinCorpus⟩

theorem configAfter_get_of (k : Key) {said : Option k.Kind} {default : k.Kind}
    (hsaid : base.get k = said.getD default) :
    (configAfter base readings).get k = (readings.foldl (fun said s => (own s k).or said) said).getD default := by
  induction readings generalizing base said with
  | nil => exact hsaid
  | cons s readings ih =>
    rw [configAfter_cons, List.foldl_cons]
    refine ih (h.configFromSettings s) ?_
    rw [configFromSettings_get s h]
    cases own s k with
    | none => exact hsaid
    | some v => rfl

/-- A setting has the value that was said last, or that of the base. -/
theorem configAfter_get (k : Key) : (configAfter base readings).get k = (lastOwn readings k).getD (base.get k) :=
  configAfter_get_of h readings k rfl

/-- One more reading is what it would be on the base if and only if what falls back in it was last said as the
base has it. -/
theorem configFromSettings_configAfter_iff (s : SettingsObj) :
    configFromSettings s (configAfter base readings) = configFromSettings s base ↔
      ∀ k, own s k = none → ∀ v, lastOwn readings k = some v → v = base.get k := by
  have hnormal := normal_configAfter h readings
  constructor
  · intro heq k hnone v hv
    have hget := congrArg (fun c => ProviderConfig.get c k) heq
    simp only [configFromSettings_get s hnormal, configFromSettings_get s h, hnone, configAfter_get h, hv,
      Option.getD_some, Option.getD_none] at hget
    exact hget
  · intro hsaid
    refine ProviderConfig.ext_get (fun k => ?_) ?_
    · rw [configFromSettings_get s hnormal, configFromSettings_get s h]
      cases hown : own s k with
      | some v => rfl
      | none =>
        rw [Option.getD_none, Option.getD_none, configAfter_get h]
        cases hlast : lastOwn readings k with
        | none => rfl
        | some v => exact hsaid k hown v hlast
    · have hglobals := configAfter_globals h readings
      have hleft := configFromSettings_globals s hnormal
      have hright := configFromSettings_globals s h
      exact ⟨hleft.username.trans (hglobals.username.trans hright.username.symm),
        hleft.apiToken.trans (hglobals.apiToken.trans hright.apiToken.symm),
        hleft.timeout.trans (hglobals.timeout.trans hright.timeout.symm),
        hleft.builtinCorpus.trans (hglobals.builtinCorpus.trans hright.builtinCorpus.symm)⟩

end Readings

theorem configFromSettings_twice {base : ProviderConfig} (h : base.Normal) (s : SettingsObj) :
    configFromSettings s (configFromSettings s base) = configFromSettings s base := by
  refine (configFromSettings_configAfter_iff h [s] s).2 fun k hnone v hv => ?_
  have hlast : lastOwn [s] k = none := by
    show (own s k).or none = none
    rw [hnone]
    rfl
  rw [hlast] at hv
  cases hv

/-! ## Sessions -/

namespace SessionLabel

/-- The settings after the step. -/
def settingsAfter (s : SettingsObj) : SessionLabel → SettingsObj
  | edit e => e.apply s
  | _ => s

/-- The step calls `_current_config`. -/
def reads : SessionLabel → Bool
  | apply => true
  | visit _ fromNode toNode _ _ => readsConfig fromNode toNode
  | _ => false

/-- The step leaves the provider its settings object. -/
def InPlace : SessionLabel → Prop
  | create _ => False
  | updateSettings _ => False
  | _ => True

end SessionLabel

/-- The settings as they were whenever the run read them. -/
def readings (s : SettingsObj) : List SessionLabel → List SettingsObj
  | [] => []
  | l :: labels => if l.reads then s :: readings (l.settingsAfter s) labels else readings (l.settingsAfter s) labels

section Runs

variable {rt : Runtime}

theorem readings_cons_of_reads {s : SettingsObj} {l : SessionLabel} {labels : List SessionLabel} (h : l.reads = true) :
    readings s (l :: labels) = s :: readings (l.settingsAfter s) labels :=
  if_pos h

theorem readings_cons_of_not_reads {s : SettingsObj} {l : SessionLabel} {labels : List SessionLabel}
    (h : l.reads = false) : readings s (l :: labels) = readings (l.settingsAfter s) labels :=
  if_neg (by simp [h])

theorem config_of_steps {s t : Session} {labels : List SessionLabel} (h : Steps (sessionStep rt) s labels t)
    (hlabels : ∀ l ∈ labels, l.InPlace) {config : ProviderConfig} (hconfig : s.config = some config) :
    t.config = some (configAfter config (readings s.settings labels)) := by
  induction h generalizing config with
  | refl => exact hconfig
  | @cons s t u l tr hstep hs ih =>
    rw [List.forall_mem_cons] at hlabels
    cases l with
    | edit e =>
      obtain rfl : t = _ := hstep
      rw [readings_cons_of_not_reads rfl]
      exact ih hlabels.2 hconfig
    | create g => exact hlabels.1.elim
    | updateSettings g => exact hlabels.1.elim
    | apply =>
      obtain ⟨last, hlast, rfl⟩ := hstep
      rw [hconfig] at hlast
      rw [← Option.some.inj hlast, currentConfig_eq] at ih
      rw [readings_cons_of_reads rfl, configAfter_cons]
      exact ih hlabels.2 rfl
    | visit fuel fromNode toNode trace out =>
      obtain ⟨last, hlast, -, rfl⟩ := hstep
      rw [hconfig] at hlast
      rw [← Option.some.inj hlast, currentConfig_eq] at ih
      have hvisit : (SessionLabel.visit fuel fromNode toNode trace out).reads = readsConfig fromNode toNode := rfl
      cases hreads : readsConfig fromNode toNode with
      | true =>
        rw [hreads] at ih
        rw [readings_cons_of_reads (hvisit.trans hreads), configAfter_cons]
        exact ih hlabels.2 rfl
      | false =>
        rw [hreads] at ih
        rw [readings_cons_of_not_reads (hvisit.trans hreads)]
        exact ih hlabels.2 rfl

/-- The next configuration is that of the settings over the global defaults of the creation, and reading it
again changes nothing. -/
def Forgets (s : SettingsObj) (last base : ProviderConfig) : Prop :=
  currentConfig s last = configFromSettings s base ∧ currentConfig s (currentConfig s last) = currentConfig s last

/-- Settings have no memory if and only if whatever falls back now was last said as the global defaults
have it, or never said. -/
theorem forgets_iff {g : GlobalSettings} {base : ProviderConfig} (hbase : globalDefaults g = .ok base)
    {s₀ : SettingsObj} {labels : List SessionLabel} {t : Session}
    (hrun : Steps (sessionStep rt) ⟨s₀, createConfig g s₀⟩ labels t) (hlabels : ∀ l ∈ labels, l.InPlace)
    {last : ProviderConfig} (hlast : t.config = some last) :
    Forgets t.settings last base ↔
      ∀ k, own t.settings k = none → ∀ v, lastOwn (s₀ :: readings s₀ labels) k = some v → v = base.get k := by
  have hnormal := normal_globalDefaults hbase
  have hcreate : createConfig g s₀ = some (configFromSettings s₀ base) := by
    simp only [createConfig, hbase, if_neg (configFromSettings_server_ne s₀ base)]
  have hconfig := config_of_steps hrun hlabels hcreate
  rw [← configAfter_cons, hlast] at hconfig
  have hlast' := Option.some.inj hconfig
  subst hlast'
  rw [← configFromSettings_configAfter_iff hnormal, Forgets, currentConfig_eq, currentConfig_eq]
  exact and_iff_left (configFromSettings_twice (normal_configAfter hnormal _) _)

end Runs

/-! ## A server that is removed -/

/-- Settings in which the user has set only the server. -/
def serverSettings (server : String) : SettingsObj :=
  ⟨fun key => providerSchema.lookup key, fun key => if key = "server" then some (.str server) else none⟩

/-- The global settings of a fresh installation. -/
def plainGlobals : GlobalSettings := ⟨none, none, .ok "", none, none⟩

theorem globalDefaults_plainGlobals : globalDefaults plainGlobals = .ok {} := by
  decide +kernel

/-- A session that was created with a server, which its user then changed. -/
def editedSession (server : String) : Session :=
  ⟨(Edit.set "server" (.str server)).apply (serverSettings "http://old/"),
    createConfig plainGlobals (serverSettings "http://old/")⟩

theorem steps_editedSession (rt : Runtime) (server : String) :
    Steps (sessionStep rt) ⟨serverSettings "http://old/", createConfig plainGlobals (serverSettings "http://old/")⟩
      [.edit (.set "server" (.str server))] (editedSession server) :=
  .single rfl

/-- The configuration of the server the session was created with. -/
def oldConfig : ProviderConfig := { server := "http://old/" }

theorem createConfig_serverSettings : createConfig plainGlobals (serverSettings "http://old/") = some oldConfig := by
  decide +kernel

theorem forgets_editedSession : Forgets (editedSession "http://new/").settings oldConfig {} := by
  have hrun := steps_editedSession ⟨fun _ => none, fun _ => ""⟩ "http://new/"
  refine (forgets_iff globalDefaults_plainGlobals hrun ?_ createConfig_serverSettings).2 fun k hnone v hv => ?_
  · intro l hl
    obtain rfl := List.mem_singleton.1 hl
    trivial
  · cases k <;> cases hnone

/-- A server that is removed stays. -/
theorem not_forgets_editedSession : ¬ ∀ (rt : Runtime) (g : GlobalSettings) (base : ProviderConfig) (s₀ : SettingsObj)
    (labels : List SessionLabel) (t : Session) (last : ProviderConfig), globalDefaults g = .ok base →
      Steps (sessionStep rt) ⟨s₀, createConfig g s₀⟩ labels t → (∀ l ∈ labels, l.InPlace) → t.config = some last →
        Forgets t.settings last base := by
  intro h
  have hforgets := h ⟨fun _ => none, fun _ => ""⟩ _ _ _ _ _ _ globalDefaults_plainGlobals (steps_editedSession _ "")
    (fun l hl => by
      obtain rfl := List.mem_singleton.1 hl
      trivial) createConfig_serverSettings
  have hserver := congrArg ProviderConfig.server hforgets.1
  exact absurd hserver (by decide +kernel)

end McritSimilarity

import McritSimilarity.Lib.Machine
import McritSimilarity.Provider
import McritSimilarity.Settings

/-!
# A session and its provider

The settings object of a session, the provider created from it, and the steps they take: edits of the
settings in place, the creation of the provider, `perform_update_settings`, an apply that reads the
configuration, and edge visits.  A visit reads the configuration once, at its start, so it takes one
step here, with the trace of its operations in its label.
-/

set_option autoImplicit false

namespace McritSimilarity

open Python

/-- `McritProviderType.create` and `perform_update_settings` up to the configuration. -/
def createConfig (g : GlobalSettings) (settings : SettingsObj) : Option ProviderConfig :=
  match globalDefaults g with
  | .error _ => none
  | .ok base =>
    let config := configFromSettings settings base
    if config.server = "" then none else some config

/-- `_current_config`, with the last configuration in place of the global defaults. -/
def currentConfig (settings : SettingsObj) (last : ProviderConfig) : ProviderConfig :=
  let fresh := configFromSettings settings last
  if fresh.server = "" then last else fresh

/-- The settings of a session and, once there is a provider, its last configuration. -/
structure Session where
  settings : SettingsObj
  config : Option ProviderConfig

inductive SessionLabel where
  | edit (e : Edit)
  | create (g : GlobalSettings)
  | updateSettings (g : GlobalSettings)
  | apply
  | visit (fuel : ℕ) (fromNode toNode : SessionNode) (trace : List (Prog.Event VisitI))
      (out : Outcome PyError Bool)

/-- Whether a visit gets as far as reading the configuration. -/
def readsConfig (fromNode toNode : SessionNode) : Bool :=
  toNode.scheduledEntities ≠ [] && fromNode.view.isSome && toNode.view.isSome

def sessionStep (rt : Runtime) (s : Session) : SessionLabel → Session → Prop
  | .edit e, t => t = { s with settings := e.apply s.settings }
  | .create g, t => s.config = none ∧ t = { s with config := createConfig g s.settings }
  | .updateSettings g, t =>
    s.config ≠ none ∧ t = { s with config := (createConfig g s.settings).or s.config }
  | .apply, t =>
    ∃ last, s.config = some last ∧ t = { s with config := some (currentConfig s.settings last) }
  | .visit fuel fromNode toNode trace out, t =>
    ∃ last, s.config = some last ∧
      Prog.Exec (performVisitNodeEdge rt fuel fromNode toNode (currentConfig s.settings last))
        trace out ∧
      t = { s with
        config := some (if readsConfig fromNode toNode then currentConfig s.settings last else last) }

theorem currentConfig_eq (settings : SettingsObj) (last : ProviderConfig) :
    currentConfig settings last = configFromSettings settings last := by
  simp only [currentConfig, if_neg (configFromSettings_server_ne settings last)]

end McritSimilarity

import McritSimilarity.CorpusLabels
import McritSimilarity.Lib.Ensures

/-!
# Applied names

`perform_apply` over the symbols of the views.  The default apply of the session copies the name of the matched
function, also where that is only the placeholder for its address.  `appliesKeepNames`: over any run of applies, edge
visits and renames, every symbol has a name that some symbol had before, that the user gave or that a visit recorded
as a label, and what the user named keeps that name.  `appliesShownName`: an apply between two unnamed functions
leaves the name that `perform_get_name` shows, or none.
-/

set_option autoImplicit false

namespace McritSimilarity

open Python Prog

/-! ## Functions and symbols -/

/-- A function of a view, by its start. -/
structure FunctionRef where
  view : ViewId
  start : ℤ
  deriving DecidableEq, Repr

structure FunctionSymbol where
  name : String
  auto : Bool
  deriving DecidableEq, Repr

abbrev Symbols := FunctionRef → Option FunctionSymbol

/-- `Function.name`: without a symbol a placeholder for the address. -/
def functionName (symbols : Symbols) (f : FunctionRef) : String :=
  match symbols f with
  | some symbol => symbol.name
  | none => "sub_" ++ hexText f.start

/-- `_has_default_name`. -/
def hasDefaultName (symbols : Symbols) (f : FunctionRef) : Bool := (symbols f).isNone

/-- The nodes of a session with their results. -/
structure SessionGraph where
  /-- `incoming_nodes` and then `outgoing_nodes`. -/
  neighbors : ℤ → List ℤ
  /-- The target of a result. -/
  getResult : (node result : ℤ) → Option EntityRef
  /-- The name of an entity. -/
  getEntity : (node entity : ℤ) → Option String
  getEntityFunction : (node entity : ℤ) → Option FunctionRef

namespace SessionGraph

variable (graph : SessionGraph)

/-- `_node_by_id`. -/
def nodeById (node nodeId : ℤ) : Option ℤ :=
  if node = nodeId then some node else (graph.neighbors node).find? fun other => other = nodeId

/-- The function that a result matches, where it can be reached. -/
def matchedFunction (node result : ℤ) : Option FunctionRef := do
  let target ← graph.getResult node result
  let neighbor ← graph.nodeById node target.nodeId
  graph.getEntityFunction neighbor target.entityId

end SessionGraph

/-! ## Names of results -/

/-- The end of `perform_get_name`. -/
def nameOrLabel (symbols : Symbols) (label name : String) (function : Option FunctionRef) : Option String :=
  if label = "" ∨ label = name then if name = "" then none else some name
  else if name = "" ∨ function.any (hasDefaultName symbols) = true then some label
  else some (name ++ " (" ++ label ++ ")")

/-- `perform_get_name` from the label of the target on. -/
def nameWithLabel (symbols : Symbols) (label name : String) (function : Option FunctionRef) : Option String :=
  if name ≠ "" ∧ (label = "" ∨ label = name) then some name
  else nameOrLabel symbols label (if name = "" then (function.map (functionName symbols)).getD "" else name) function

/-- `perform_get_name`. -/
def performGetName (graph : SessionGraph) (symbols : Symbols) (labels : Labels) (node result : ℤ) : Option String :=
  match graph.getResult node result with
  | none => none
  | some target =>
    match graph.nodeById node target.nodeId with
    | none => none
    | some neighbor =>
      nameWithLabel symbols (label labels target) ((graph.getEntity neighbor target.entityId).getD "")
        (graph.getEntityFunction neighbor target.entityId)

/-! ## Applying a result -/

/-- `SimilarityApplyStatus`. -/
inductive ApplyStatus where
  | success
  | nodeInactive
  | entityNotFound
  | unsupported
  | failed
  deriving DecidableEq, Repr

inductive ApplyOp where
  | getSymbolAt (f : FunctionRef)
  /-- `_current_config().apply_corpus_labels`. -/
  | applyCorpusLabels
  | label (target : EntityRef)
  /-- The default apply. -/
  | superApply (node entity result : ℤ)
  | setName (f : FunctionRef) (name : String)
  | undefineAutoSymbol (f : FunctionRef) (symbol : FunctionSymbol)

@[reducible] def ApplyOp.Ans : ApplyOp → Type
  | getSymbolAt _ => Option FunctionSymbol
  | applyCorpusLabels => Bool
  | label _ => String
  | superApply _ _ _ => ApplyStatus
  | setName _ _ => Unit
  | undefineAutoSymbol _ _ => Unit

def ApplyI : Interface := ⟨ApplyOp, ApplyOp.Ans⟩

abbrev ApplyProg := Prog ApplyI PyError

def askApply (o : ApplyOp) : ApplyProg o.Ans := Prog.call (I := ApplyI) o .ret

section Apply

variable (graph : SessionGraph) (node entity result : ℤ)

/-- `_target_has_default_name`. -/
def targetHasDefaultName : ApplyProg Bool :=
  match graph.matchedFunction node result with
  | none => pure false
  | some target => do
    let symbol ← askApply (.getSymbolAt target)
    return symbol.isNone

/-- The label that may name the source. -/
def labelToApply : ApplyProg String := do
  let enabled ← askApply .applyCorpusLabels
  if enabled = true then
    match graph.getResult node result with
    | none => pure ""
    | some target => askApply (.label target)
  else pure ""

/-- What `perform_apply` makes of the symbol that the default apply left. -/
def replaceSymbol (f : FunctionRef) (label : String) : Option FunctionSymbol → ApplyProg Unit
  | none => if label ≠ "" then askApply (.setName f label) else pure ()
  | some symbol =>
    if symbol.auto = true then
      if label ≠ "" then askApply (.setName f label) else askApply (.undefineAutoSymbol f symbol)
    else pure ()

/-- `perform_apply` where the target has no name of its own. -/
def applyUnnamed (f : FunctionRef) : ApplyProg ApplyStatus := do
  let label ← labelToApply graph node result
  let before ← askApply (.getSymbolAt f)
  let status ← askApply (.superApply node entity result)
  if status ≠ .success ∨ before.isNone = false then pure status
  else do
    let symbol ← askApply (.getSymbolAt f)
    replaceSymbol f label symbol
    return status

/-- `perform_apply`. -/
def performApply : ApplyProg ApplyStatus :=
  match graph.getEntityFunction node entity with
  | none => askApply (.superApply node entity result)
  | some f => do
    let unnamed ← targetHasDefaultName graph node result
    if unnamed = true then applyUnnamed graph node entity result f
    else askApply (.superApply node entity result)

end Apply

/-! ## The symbols of a session -/

/-- A name that the user gives a function, or takes away. -/
structure Rename where
  f : FunctionRef
  name : Option String

structure AppState where
  symbols : Symbols
  labels : Labels
  /-- What the user has last named a function. -/
  chosen : FunctionRef → Option String

namespace AppState

def rename (s : AppState) (r : Rename) : AppState :=
  { s with
    symbols := Function.update s.symbols r.f (r.name.map fun name => ⟨name, false⟩)
    chosen := Function.update s.chosen r.f r.name }

def setSymbol (s : AppState) (f : FunctionRef) (symbol : Option FunctionSymbol) : AppState :=
  { s with symbols := Function.update s.symbols f symbol }

end AppState

/-- The default apply, with the symbols before and after it. -/
abbrev SuperApply := (node entity result : ℤ) → Symbols → ApplyStatus → Symbols → Prop

/-- The default apply copies the name of the matched function to an unnamed source.  Where the source has a symbol
of its own, it may replace that only if the user did not set it, and not by a placeholder. -/
structure SuperApply.Copies (graph : SessionGraph) (superApply : SuperApply) : Prop where
  failed {node entity result : ℤ} {s t : Symbols} {status : ApplyStatus} :
    superApply node entity result s status t → status ≠ .success → t = s
  elsewhere {node entity result : ℤ} {s t : Symbols} {status : ApplyStatus} {f : FunctionRef} :
    superApply node entity result s status t → graph.getEntityFunction node entity ≠ some f → t f = s f
  copies {node entity result : ℤ} {s t : Symbols} {status : ApplyStatus} {f : FunctionRef} :
    superApply node entity result s status t → t f = s f ∨ ∃ g, graph.matchedFunction node result = some g ∧
      t f = some ⟨functionName s g, true⟩ ∧ ∀ symbol, s f = some symbol → symbol.auto = true ∧ s g ≠ none

/-- The operations of `perform_apply`, where the user makes some edits during the default apply; `enabled` is the
setting that labels are applied. -/
def applySem (superApply : SuperApply) (enabled : Bool) (edits : List Rename) (s : AppState) (o : ApplyI.Op)
    (a : ApplyI.Ans o) (t : AppState) : Prop :=
  match o, a with
  | .getSymbolAt f, symbol => symbol = s.symbols f ∧ t = s
  | .applyCorpusLabels, found => found = enabled ∧ t = s
  | .label target, text => text = label s.labels target ∧ t = s
  | .superApply node entity result, status => ∃ symbols, superApply node entity result s.symbols status symbols ∧
      t = edits.foldl AppState.rename { s with symbols }
  | .setName f name, _ => t = s.setSymbol f (some ⟨name, false⟩)
  | .undefineAutoSymbol f symbol, _ => t = if s.symbols f = some symbol then s.setSymbol f none else s

inductive AppLabel where
  | apply (node entity result : ℤ) (enabled : Bool) (edits : List Rename)
  | rename (r : Rename)
  | visit (v : EdgeVisit)

/-- The names that a step brings in: those of the user and the labels of a visit. -/
def AppLabel.given : AppLabel → List String
  | apply _ _ _ _ edits => edits.filterMap Rename.name
  | rename r => r.name.toList
  | visit v => (written v.trace).map Prod.snd

def appStep (graph : SessionGraph) (superApply : SuperApply) (rt : Runtime) (s : AppState) (l : AppLabel)
    (t : AppState) : Prop :=
  match l with
  | .apply node entity result enabled edits =>
    ∃ out, RunsTo (applySem superApply enabled edits) (performApply graph node entity result) s out t
  | .rename r => t = s.rename r
  | .visit v => ∃ labels, visitStep rt s.labels v labels ∧ t = { s with labels }

/-! ## Names that are known -/

namespace AppState

variable {names : Set String} {copied : Set FunctionRef} {f : FunctionRef} {s : AppState}

theorem symbols_rename (s : AppState) (r : Rename) (g : FunctionRef) :
    (s.rename r).symbols g = if g = r.f then r.name.map fun name => ⟨name, false⟩ else s.symbols g :=
  Function.update_apply _ _ _ _

theorem chosen_rename (s : AppState) (r : Rename) (g : FunctionRef) :
    (s.rename r).chosen g = if g = r.f then r.name else s.chosen g :=
  Function.update_apply _ _ _ _

theorem symbols_setSymbol (s : AppState) (f : FunctionRef) (symbol : Option FunctionSymbol) (g : FunctionRef) :
    (s.setSymbol f symbol).symbols g = if g = f then symbol else s.symbols g :=
  Function.update_apply _ _ _ _

/-- Every symbol has a known name, but for what an apply has just copied, and what the user has chosen is there. -/
structure Named (names : Set String) (copied : Set FunctionRef) (s : AppState) : Prop where
  symbols : ∀ g symbol, s.symbols g = some symbol → symbol.name ∈ names ∨ g ∈ copied ∧ symbol.auto = true
  labels : ∀ key text, s.labels.find? key = some text → text ∈ names
  chosen : ∀ g name, s.chosen g = some name → s.symbols g = some ⟨name, false⟩

theorem Named.known (h : s.Named names ∅) {symbol : FunctionSymbol} (hf : s.symbols f = some symbol) :
    symbol.name ∈ names :=
  (h.symbols f symbol hf).resolve_right fun hcopied => hcopied.1

theorem Named.mono {names' : Set String} (h : s.Named names copied) (hsub : names ⊆ names') : s.Named names' copied :=
  ⟨fun g symbol hg => (h.symbols g symbol hg).imp_left fun hname => hsub hname,
    fun key text hkey => hsub (h.labels key text hkey), h.chosen⟩

theorem Named.rename (h : s.Named names copied) {r : Rename} (hr : ∀ name ∈ r.name, name ∈ names) :
    (s.rename r).Named names copied where
  symbols := fun g symbol hg => by
    rw [symbols_rename] at hg
    split_ifs at hg
    · obtain ⟨name, hname, rfl⟩ := Option.map_eq_some_iff.1 hg
      exact Or.inl (hr name hname)
    · exact h.symbols g symbol hg
  labels := h.labels
  chosen := fun g name hg => by
    rw [chosen_rename] at hg
    rw [symbols_rename]
    split_ifs at hg ⊢
    · rw [hg]
      rfl
    · exact h.chosen g name hg

theorem Named.renames (h : s.Named names copied) {edits : List Rename}
    (hedits : ∀ name ∈ edits.filterMap Rename.name, name ∈ names) :
    (edits.foldl AppState.rename s).Named names copied := by
  induction edits generalizing s with
  | nil => exact h
  | cons r edits ih =>
    refine ih (h.rename fun name hname => hedits name ?_) fun name hname => hedits name ?_
    · exact List.mem_filterMap.2 ⟨r, List.mem_cons_self, hname⟩
    · obtain ⟨r', hr', hname'⟩ := List.mem_filterMap.1 hname
      exact List.mem_filterMap.2 ⟨r', List.mem_cons_of_mem _ hr', hname'⟩

/-- Replacing a symbol that the user did not set, by a known one or by none. -/
theorem Named.setSymbol (h : s.Named names {f}) {symbol : Option FunctionSymbol}
    (hauto : ∀ old, s.symbols f = some old → old.auto = true) (hname : ∀ new ∈ symbol, new.name ∈ names) :
    (s.setSymbol f symbol).Named names ∅ where
  symbols := fun g new hg => by
    rw [symbols_setSymbol] at hg
    split_ifs at hg with hgf
    · exact Or.inl (hname new hg)
    · exact Or.inl ((h.symbols g new hg).resolve_right fun hcopied => hgf hcopied.1)
  labels := h.labels
  chosen := fun g name hg => by
    have hold := h.chosen g name hg
    rw [symbols_setSymbol, if_neg]
    · exact hold
    · rintro rfl
      exact Bool.false_ne_true (hauto _ hold)

/-- What an apply copied has been replaced by the user. -/
theorem Named.of_chosen (h : s.Named names {f}) (hauto : ∀ symbol, s.symbols f = some symbol → symbol.auto = false) :
    s.Named names ∅ where
  symbols := fun g symbol hg => Or.inl <| (h.symbols g symbol hg).resolve_right fun ⟨hgf, hcopied⟩ => by
    obtain rfl : g = f := hgf
    rw [hauto symbol hg] at hcopied
    cases hcopied
  labels := h.labels
  chosen := h.chosen

end AppState

/-! ## One apply -/

section Apply

variable {graph : SessionGraph} {superApply : SuperApply} {enabled : Bool} {edits : List Rename} {names : Set String}
  {s : AppState} {node entity result : ℤ} {f : FunctionRef}

/-- The default apply changes no symbol that the user has chosen. -/
theorem SuperApply.Copies.chosen (h : superApply.Copies graph) {status : ApplyStatus} {u : Symbols}
    (happly : superApply node entity result s.symbols status u) {name : String}
    (hf : s.symbols f = some ⟨name, false⟩) : u f = some ⟨name, false⟩ := by
  rcases h.copies (f := f) happly with hsame | ⟨g, -, -, hauto⟩
  · rw [hsame, hf]
  · exact absurd (hauto _ hf).1 Bool.false_ne_true

/-- The default apply leaves a copy at the source, which has a known name if the match or the source had a symbol. -/
theorem AppState.Named.afterSuper (hs : s.Named names ∅) (h : superApply.Copies graph) {status : ApplyStatus}
    {u : Symbols} (happly : superApply node entity result s.symbols status u) {copied : Set FunctionRef}
    (hcopied : ∀ f, graph.getEntityFunction node entity = some f → f ∈ copied ∨
      ∀ g, graph.matchedFunction node result = some g → s.symbols g = none → s.symbols f ≠ none) :
    ({ s with symbols := u } : AppState).Named names copied where
  symbols := fun f symbol hf => by
    rcases h.copies (f := f) happly with hsame | ⟨g, hg₀, hcopy, hold⟩
    · exact Or.inl (hs.known (hsame.symm.trans hf))
    · by_cases hsource : graph.getEntityFunction node entity = some f
      · obtain rfl : symbol = ⟨functionName s.symbols g, true⟩ := Option.some.inj (hf.symm.trans hcopy)
        rcases hcopied f hsource with hmem | hunnamed
        · exact Or.inr ⟨hmem, rfl⟩
        · obtain ⟨real, hreal⟩ : ∃ real, s.symbols g = some real := by
            by_contra hnone
            have hg := Option.eq_none_iff_forall_ne_some.2 fun real hreal => hnone ⟨real, hreal⟩
            obtain ⟨old, hfound⟩ := Option.ne_none_iff_exists'.1 (hunnamed g hg₀ hg)
            exact (hold old hfound).2 hg
          have hname : functionName s.symbols g = real.name := by rw [functionName, hreal]
          exact Or.inl (show functionName s.symbols g ∈ names from hname ▸ hs.known hreal)
      · exact Or.inl (hs.known ((h.elsewhere happly hsource).symm.trans hf))
  labels := hs.labels
  chosen := fun g name hg => h.chosen happly (hs.chosen g name hg)

/-- The default apply, where it copies a known name or none. -/
theorem ensures_superApply (h : superApply.Copies graph) (hs : s.Named names ∅)
    (hedits : ∀ name ∈ edits.filterMap Rename.name, name ∈ names) {copied : Set FunctionRef}
    (hcopied : ∀ f, graph.getEntityFunction node entity = some f → f ∈ copied ∨
      ∀ g, graph.matchedFunction node result = some g → s.symbols g = none → s.symbols f ≠ none) :
    (askApply (.superApply node entity result)).Ensures (applySem superApply enabled edits)
      (fun _ t => t.Named names copied) s := by
  rintro status t ⟨symbols, happly, rfl⟩
  exact (hs.afterSuper h happly hcopied).renames hedits

/-- A placeholder is taken back, or the label replaces it. -/
theorem ensures_replaceSymbol (hs : s.Named names {f}) {label : String} (hlabel : label ≠ "" → label ∈ names) :
    (replaceSymbol f label (s.symbols f)).Ensures (applySem superApply enabled edits)
      (fun _ t => t.Named names ∅) s := by
  have hset : label ≠ "" → (∀ old, s.symbols f = some old → old.auto = true) →
      (askApply (.setName f label)).Ensures (applySem superApply enabled edits) (fun _ t => t.Named names ∅) s := by
    rintro hne hauto _ t rfl
    exact hs.setSymbol hauto fun new hnew => Option.some.inj hnew ▸ hlabel hne
  cases hsymbol : s.symbols f with
  | none =>
    have hnone : ∀ old, s.symbols f = some old → False := fun old hold => by
      rw [hsymbol] at hold
      cases hold
    rw [replaceSymbol]
    split_ifs with hne
    · exact hset hne fun old hold => (hnone old hold).elim
    · exact hs.of_chosen fun old hold => (hnone old hold).elim
  | some symbol =>
    have hsame : ∀ old, s.symbols f = some old → old = symbol := fun old hold =>
      Option.some.inj (hold.symm.trans hsymbol)
    rw [replaceSymbol]
    split_ifs with hauto hne
    · exact hset hne fun old hold => hsame old hold ▸ hauto
    · rintro _ t rfl
      rw [if_pos hsymbol]
      exact hs.setSymbol (fun old hold => hsame old hold ▸ hauto) nofun
    · exact hs.of_chosen fun old hold => hsame old hold ▸ Bool.eq_false_of_not_eq_true hauto

/-- The label that may name the source. -/
def sourceLabel (graph : SessionGraph) (enabled : Bool) (s : AppState) (node result : ℤ) : String :=
  if enabled = true then ((graph.getResult node result).map (label s.labels)).getD "" else ""

theorem AppState.Named.sourceLabel (hs : s.Named names ∅) (hne : sourceLabel graph enabled s node result ≠ "") :
    McritSimilarity.sourceLabel graph enabled s node result ∈ names := by
  unfold McritSimilarity.sourceLabel at hne ⊢
  split_ifs at hne ⊢ with henabled
  · cases hresult : graph.getResult node result with
    | none =>
      rw [hresult] at hne
      exact absurd rfl hne
    | some target =>
      rw [hresult] at hne
      change label s.labels target ≠ "" at hne
      change label s.labels target ∈ names
      unfold label at hne ⊢
      cases hfound : s.labels.find? (target.nodeId, target.entityId) with
      | none =>
        rw [hfound] at hne
        exact absurd rfl hne
      | some text => exact hs.labels _ text hfound
  · exact absurd rfl hne

theorem ensures_labelToApply : (labelToApply graph node result).Ensures (applySem superApply enabled edits)
    (fun out t => t = s ∧ out = .returned (sourceLabel graph enabled s node result)) s := by
  rintro found t ⟨rfl, rfl⟩
  cases found with
  | false => exact ⟨rfl, rfl⟩
  | true =>
    change ((match graph.getResult node result with
      | none => pure ""
      | some target => askApply (.label target) : ApplyProg String)).Ensures _ _ _
    unfold sourceLabel
    cases graph.getResult node result with
    | none => exact ⟨rfl, rfl⟩
    | some target =>
      rintro _ u ⟨rfl, rfl⟩
      exact ⟨rfl, rfl⟩

theorem ensures_applyUnnamed (h : superApply.Copies graph) (hs : s.Named names ∅)
    (hedits : ∀ name ∈ edits.filterMap Rename.name, name ∈ names)
    (hf : graph.getEntityFunction node entity = some f) :
    (applyUnnamed graph node entity result f).Ensures (applySem superApply enabled edits)
      (fun _ t => t.Named names ∅) s := by
  refine Ensures.bind (ensures_labelToApply.mono fun out t ht => ?_)
  obtain ⟨rfl, rfl⟩ := ht
  have hlabel : sourceLabel graph enabled t node result ≠ "" → sourceLabel graph enabled t node result ∈ names :=
    hs.sourceLabel
  generalize sourceLabel graph enabled t node result = label at hlabel
  rintro _ u ⟨rfl, rfl⟩ (status : ApplyStatus) v ⟨symbols, happly, rfl⟩
  have hkept : status ≠ .success ∨ (u.symbols f).isNone = false →
      (edits.foldl AppState.rename { u with symbols := symbols }).Named names ∅ := by
    rintro (hfailed | hnamed)
    · obtain rfl := h.failed happly hfailed
      exact hs.renames hedits
    · refine (hs.afterSuper h happly fun f' hsource => Or.inr fun g _ _ hnone => ?_).renames hedits
      obtain rfl := Option.some.inj (hf.symm.trans hsource)
      rw [hnone] at hnamed
      cases hnamed
  have hcopied : (edits.foldl AppState.rename { u with symbols := symbols }).Named names {f} := by
    refine (hs.afterSuper h happly fun f' hsource => Or.inl ?_).renames hedits
    exact (Option.some.inj (hf.symm.trans hsource)).symm
  change (if status ≠ .success ∨ (u.symbols f).isNone = false then pure status else (do
    let symbol ← askApply (.getSymbolAt f)
    replaceSymbol f label symbol
    return status : ApplyProg ApplyStatus)).Ensures _ _ _
  split_ifs with hdone
  · exact hkept hdone
  · rintro symbol v ⟨rfl, rfl⟩
    change (replaceSymbol f label _ >>= fun _ => pure status : ApplyProg ApplyStatus).Ensures _ _ _
    refine Ensures.bind ((ensures_replaceSymbol hcopied hlabel).mono fun out w hw => ?_)
    cases out with
    | pending => trivial
    | _ => exact hw

/-- An apply leaves known names only. -/
theorem ensures_performApply (h : superApply.Copies graph) (hs : s.Named names ∅)
    (hedits : ∀ name ∈ edits.filterMap Rename.name, name ∈ names) :
    (performApply graph node entity result).Ensures (applySem superApply enabled edits)
      (fun _ t => t.Named names ∅) s := by
  unfold performApply
  cases hf : graph.getEntityFunction node entity with
  | none => exact ensures_superApply h hs hedits fun f hsource => by rw [hf] at hsource; cases hsource
  | some f =>
    refine Ensures.bind ?_
    unfold targetHasDefaultName
    cases hg : graph.matchedFunction node result with
    | none =>
      exact ensures_superApply h hs hedits fun _ _ => Or.inr fun g hmatched => by rw [hg] at hmatched; cases hmatched
    | some g =>
      rintro symbol t ⟨rfl, rfl⟩
      cases hsymbol : t.symbols g with
      | none => exact ensures_applyUnnamed h hs hedits hf
      | some symbol =>
        refine ensures_superApply h hs hedits fun _ _ => Or.inr fun g' hmatched hnone => ?_
        obtain rfl := Option.some.inj (hg.symm.trans hmatched)
        rw [hsymbol] at hnone
        cases hnone

end Apply

/-! ## The name that is shown -/

section Shown

variable {graph : SessionGraph} {superApply : SuperApply} {enabled : Bool} {s : AppState} {node entity result : ℤ}
  {f g : FunctionRef}

/-- The label of an unnamed function is shown, whatever the name of its entity is. -/
theorem nameOrLabel_of_unnamed {symbols : Symbols} {label name : String} (hg : symbols g = none)
    (hlabel : label ≠ "") : nameOrLabel symbols label name (some g) = some label := by
  unfold nameOrLabel
  split_ifs with hsame hempty hdefault
  · exact absurd ((hsame.resolve_left hlabel).trans hempty) hlabel
  · rw [hsame.resolve_left hlabel]
  · rfl
  · refine absurd (Or.inr ?_) hdefault
    rw [Option.any_some, hasDefaultName, hg]
    rfl

theorem performGetName_of_unnamed {target : EntityRef} (hresult : graph.getResult node result = some target)
    (hg : graph.matchedFunction node result = some g) (hdefault : s.symbols g = none)
    (hlabel : label s.labels target ≠ "") :
    performGetName graph s.symbols s.labels node result = some (label s.labels target) := by
  unfold SessionGraph.matchedFunction at hg
  rw [hresult] at hg
  change (graph.nodeById node target.nodeId).bind _ = some g at hg
  obtain ⟨neighbor, hneighbor, hfunction⟩ := Option.bind_eq_some_iff.1 hg
  have hshown : performGetName graph s.symbols s.labels node result = nameWithLabel s.symbols (label s.labels target)
      ((graph.getEntity neighbor target.entityId).getD "") (some g) := by
    unfold performGetName
    rw [hresult, ← hfunction]
    change (match graph.nodeById node target.nodeId with | none => none | some neighbor => _) = _
    rw [hneighbor]
  rw [hshown]
  unfold nameWithLabel
  split_ifs with hname
  · rw [hname.2.resolve_left hlabel]
  all_goals exact nameOrLabel_of_unnamed hdefault hlabel

/-- What a label leaves of an unnamed function. -/
def labelSymbol (label : String) : Option FunctionSymbol := if label ≠ "" then some ⟨label, false⟩ else none

theorem ensures_replaceSymbol_unnamed {label : String}
    (hauto : ∀ symbol, s.symbols f = some symbol → symbol.auto = true) :
    (replaceSymbol f label (s.symbols f)).Ensures (applySem superApply enabled []) (fun _ t =>
      t.symbols = Function.update s.symbols f (labelSymbol label)) s := by
  unfold labelSymbol
  cases hsymbol : s.symbols f with
  | none =>
    rw [replaceSymbol]
    split_ifs with hne
    · rintro _ t rfl
      rfl
    · change s.symbols = Function.update s.symbols f none
      rw [← hsymbol, Function.update_eq_self]
  | some symbol =>
    rw [replaceSymbol, if_pos (hauto symbol hsymbol)]
    split_ifs with hne
    · rintro _ t rfl
      rfl
    · rintro _ t rfl
      rw [if_pos hsymbol]
      rfl

/-- An apply between unnamed functions leaves the label at the source, or nothing. -/
theorem ensures_applyUnnamed_label (h : superApply.Copies graph) (hf : graph.getEntityFunction node entity = some f)
    (hunnamed : s.symbols f = none) :
    (applyUnnamed graph node entity result f).Ensures (applySem superApply enabled []) (fun out t =>
      out = .returned .success → t.symbols = Function.update s.symbols f
        (labelSymbol (sourceLabel graph enabled s node result))) s := by
  refine Ensures.bind (ensures_labelToApply.mono fun out t ht => ?_)
  obtain ⟨rfl, rfl⟩ := ht
  generalize sourceLabel graph enabled t node result = label
  rintro _ u ⟨rfl, rfl⟩ (status : ApplyStatus) v ⟨symbols, happly, rfl⟩
  change (if status ≠ .success ∨ (u.symbols f).isNone = false then pure status else (do
    let symbol ← askApply (.getSymbolAt f)
    replaceSymbol f label symbol
    return status : ApplyProg ApplyStatus)).Ensures _ _ _
  split_ifs with hdone
  · intro hout
    rcases hdone with hfailed | hnamed
    · exact absurd (Outcome.returned.inj hout) hfailed
    · rw [hunnamed] at hnamed
      cases hnamed
  rintro symbol w ⟨rfl, rfl⟩
  change (replaceSymbol f label _ >>= fun _ => pure status : ApplyProg ApplyStatus).Ensures _ _ _
  have hauto : ∀ symbol, symbols f = some symbol → symbol.auto = true := fun symbol hsymbol => by
    rcases h.copies (f := f) happly with hsame | ⟨g, -, hcopy, -⟩
    · rw [hsame, hunnamed] at hsymbol
      cases hsymbol
    · rw [hcopy] at hsymbol
      rw [← Option.some.inj hsymbol]
  have helsewhere : ∀ x, Function.update symbols f x = Function.update u.symbols f x := fun x => by
    funext g
    by_cases hg : g = f
    · rw [hg, Function.update_self, Function.update_self]
    · rw [Function.update_of_ne hg, Function.update_of_ne hg]
      exact h.elsewhere happly fun hsource => hg (Option.some.inj (hsource.symm.trans hf))
  refine Ensures.bind ((ensures_replaceSymbol_unnamed hauto).mono fun out w hw => ?_)
  cases out with
  | pending => trivial
  | raised => exact nofun
  | returned => exact fun _ => hw.trans (helsewhere _)

/-- What a session shows for a result between two unnamed functions is what applying it names the source, if labels
are applied; otherwise, and without a label, the source stays unnamed. -/
theorem appliesShownName (h : superApply.Copies graph) {target : EntityRef} {t : AppState}
    (hf : graph.getEntityFunction node entity = some f) (hunnamed : s.symbols f = none)
    (hresult : graph.getResult node result = some target) (hg : graph.matchedFunction node result = some g)
    (hdefault : s.symbols g = none)
    (hrun : RunsTo (applySem superApply enabled []) (performApply graph node entity result) s (.returned .success) t) :
    t.symbols = Function.update s.symbols f (if enabled = true ∧ label s.labels target ≠ "" then
      (performGetName graph s.symbols s.labels node result).map fun name => ⟨name, false⟩ else none) := by
  have hprogram : (performApply graph node entity result).Ensures (applySem superApply enabled []) (fun out t =>
      out = .returned .success → t.symbols = Function.update s.symbols f
        (labelSymbol (sourceLabel graph enabled s node result))) s := by
    unfold performApply
    rw [hf]
    refine Ensures.bind ?_
    unfold targetHasDefaultName
    rw [hg]
    rintro symbol u ⟨rfl, rfl⟩
    rw [hdefault]
    exact ensures_applyUnnamed_label h hf hunnamed
  rw [hprogram.runsTo hrun rfl]
  congr 1
  unfold sourceLabel
  rw [hresult]
  change labelSymbol (if enabled = true then label s.labels target else "") = _
  by_cases hlabel : label s.labels target = ""
  · rw [hlabel, ite_self, if_neg (fun hset : enabled = true ∧ "" ≠ "" => hset.2 rfl)]
    rfl
  · rw [performGetName_of_unnamed hresult hg hdefault hlabel]
    cases enabled with
    | false => rfl
    | true =>
      rw [if_pos rfl, if_pos ⟨rfl, hlabel⟩]
      exact if_pos hlabel

end Shown

/-! ## Runs of a session -/

section Runs

variable {graph : SessionGraph} {superApply : SuperApply} {rt : Runtime} {s t : AppState} {tr : List AppLabel}

/-- One step of a session keeps all names known. -/
theorem AppState.Named.step {names : Set String} {l : AppLabel} (h : superApply.Copies graph)
    (hs : s.Named names ∅) (hgiven : ∀ name ∈ l.given, name ∈ names) (hstep : appStep graph superApply rt s l t) :
    t.Named names ∅ := by
  cases l with
  | apply node entity result enabled edits =>
    obtain ⟨out, hrun⟩ := hstep
    exact (ensures_performApply h hs hgiven).runsTo hrun
  | rename r =>
    obtain rfl : t = s.rename r := hstep
    exact hs.rename fun name hname => hgiven name (Option.mem_toList.2 hname)
  | visit v =>
    obtain ⟨labels, ⟨-, -, rfl⟩, rfl⟩ := hstep
    exact ⟨hs.symbols, fun key text hkey => (OrderedMap.find?_update_cases hkey).elim (hs.labels key text)
      fun hnew => hgiven text (List.mem_map.2 ⟨_, hnew, rfl⟩), hs.chosen⟩

/-- The names of all symbols. -/
def AppState.names (s : AppState) : Set String := {name | ∃ f symbol, s.symbols f = some symbol ∧ symbol.name = name}

/-- Applies, in any order and between any visits and renames, bring in no name of their own, such as the placeholder
for an address of another binary, and leave every name that the user has chosen. -/
theorem appliesKeepNames (h : superApply.Copies graph) (hlabels : s.labels = .empty) (hchosen : ∀ f, s.chosen f = none)
    (hrun : Steps (appStep graph superApply rt) s tr t) :
    t.names ⊆ s.names ∪ {name | name ∈ tr.flatMap AppLabel.given} ∧
      ∀ f name, t.chosen f = some name → t.symbols f = some ⟨name, false⟩ := by
  have hstart : s.Named s.names ∅ := by
    refine ⟨fun f symbol hf => Or.inl ⟨f, symbol, hf, rfl⟩, fun key text hkey => ?_, fun f name hf => ?_⟩
    · rw [hlabels] at hkey
      cases hkey
    · rw [hchosen] at hf
      cases hf
  have hend := hrun.invariant_trace (P := fun tr t => t.Named (s.names ∪ {name | name ∈ tr.flatMap AppLabel.given}) ∅)
    (fun tr u l v hu hstep => by
      have happend : (tr ++ [l]).flatMap AppLabel.given = tr.flatMap AppLabel.given ++ l.given := by
        rw [List.flatMap_append, List.flatMap_singleton]
      rw [happend]
      refine (hu.mono ?_).step h (fun name hname => Or.inr (List.mem_append_right _ hname)) hstep
      exact Set.union_subset_union_right _ fun name hname => List.mem_append_left _ hname)
    (hstart.mono Set.subset_union_left)
  refine ⟨?_, hend.chosen⟩
  rintro name ⟨f, symbol, hf, rfl⟩
  exact hend.known hf

end Runs

/-! ## A session of two unnamed functions -/

/-- A default apply that copies to unnamed functions only. -/
def copyName (graph : SessionGraph) (node entity result : ℤ) (s : Symbols) : ApplyStatus × Symbols :=
  match graph.getEntityFunction node entity, graph.matchedFunction node result with
  | some f, some g =>
    (.success, if s f = none then Function.update s f (some ⟨functionName s g, true⟩) else s)
  | _, _ => (.entityNotFound, s)

def copiesName (graph : SessionGraph) : SuperApply :=
  fun node entity result s status t => copyName graph node entity result s = (status, t)

theorem copies_copiesName (graph : SessionGraph) : (copiesName graph).Copies graph where
  failed := fun {node entity result s t status} h hfailed => by
    unfold copiesName copyName at h
    split at h
    · exact absurd (Prod.mk.inj h).1.symm hfailed
    · exact (Prod.mk.inj h).2.symm
  elsewhere := fun {node entity result s t status f} h hsource => by
    unfold copiesName copyName at h
    split at h
    · next f' g hf' hg =>
      rw [← (Prod.mk.inj h).2]
      split_ifs
      · exact Function.update_of_ne (fun hff : f = f' => hsource (hff.symm ▸ hf')) _ _
      · rfl
    · rw [(Prod.mk.inj h).2]
  copies := fun {node entity result s t status f} h => by
    unfold copiesName copyName at h
    split at h
    · next f' g hf' hg =>
      rw [← (Prod.mk.inj h).2]
      split_ifs with hnone
      · by_cases hff : f = f'
        · subst hff
          refine Or.inr ⟨g, hg, Function.update_self _ _ _, fun symbol hsymbol => ?_⟩
          rw [hnone] at hsymbol
          cases hsymbol
        · exact Or.inl (Function.update_of_ne hff _ _)
      · exact Or.inl rfl
    · exact Or.inl (congrFun (Prod.mk.inj h).2.symm f)

def applyHandler (graph : SessionGraph) (enabled : Bool) : Handler ApplyI AppState
  | .getSymbolAt f, s => (s.symbols f, s)
  | .applyCorpusLabels, s => (enabled, s)
  | .label target, s => (label s.labels target, s)
  | .superApply node entity result, s =>
    ((copyName graph node entity result s.symbols).1,
      { s with symbols := (copyName graph node entity result s.symbols).2 })
  | .setName f name, s => ((), s.setSymbol f (some ⟨name, false⟩))
  | .undefineAutoSymbol f symbol, s => ((), if s.symbols f = some symbol then s.setSymbol f none else s)

theorem applyHandler_sem (graph : SessionGraph) (enabled : Bool) (s : AppState) (o : ApplyOp) :
    applySem (copiesName graph) enabled [] s o (applyHandler graph enabled o s).1
      (applyHandler graph enabled o s).2 := by
  cases o with
  | superApply => exact ⟨_, rfl, rfl⟩
  | setName => rfl
  | undefineAutoSymbol => rfl
  | _ => exact ⟨rfl, rfl⟩

/-- Entity 1 of node 2 is matched with entity 7 of node 1. -/
def pairedGraph : SessionGraph where
  neighbors := fun _ => [1]
  getResult := fun _ _ => some ⟨1, 7⟩
  getEntity := fun _ _ => some "sub_2000"
  getEntityFunction := fun node _ => some (if node = 2 then ⟨1, 0x1000⟩ else ⟨0, 0x2000⟩)

/-- Nothing has a name, and a visit has recorded these labels. -/
def unnamedState (labels : Labels) : AppState := ⟨fun _ => none, labels, fun _ => none⟩

/-- The state that an apply leaves. -/
def appliedState (labels : Labels) (enabled : Bool) : AppState :=
  ((performApply pairedGraph 2 1 5).run (applyHandler pairedGraph enabled) (unnamedState labels)).2

theorem runsTo_appliedState {labels : Labels} {enabled : Bool} (h : ((performApply pairedGraph 2 1 5).run
      (applyHandler pairedGraph enabled) (unnamedState labels)).1 = .returned .success) :
    RunsTo (applySem (copiesName pairedGraph) enabled []) (performApply pairedGraph 2 1 5) (unnamedState labels)
      (.returned .success) (appliedState labels enabled) :=
  runsTo_run (applyHandler_sem pairedGraph enabled) h nofun

theorem appliesKeepNames_appliedState : (appliedState .empty true).names ⊆
    (unnamedState .empty).names ∪ {name | name ∈ [AppLabel.apply 2 1 5 true []].flatMap AppLabel.given} :=
  have hrun : Steps (appStep pairedGraph (copiesName pairedGraph) ⟨fun _ => none, fun _ => ""⟩) (unnamedState .empty)
      [.apply 2 1 5 true []] (appliedState .empty true) := .single ⟨_, runsTo_appliedState (by rfl)⟩
  (appliesKeepNames (copies_copiesName pairedGraph) rfl (fun _ => rfl) hrun).1

theorem appliesShownName_appliedState :
    (appliedState (.put .empty (1, 7) "CryptEncrypt") true).symbols ⟨1, 0x1000⟩ = some ⟨"CryptEncrypt", false⟩ := by
  rw [appliesShownName (copies_copiesName pairedGraph) rfl rfl rfl rfl rfl (runsTo_appliedState (by rfl))]
  decide

end McritSimilarity

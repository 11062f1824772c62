import McritSimilarity.Payload
import McritSimilarity.VisitCalls

/-!
# What a visit emits

An unstopped visit adds one result for each row its filter selects, in their order, as long as the row
has an offset, a scheduled source entity and a target that is listed or can be created.
`addMatchOnlyEntities_grown` says what creating entities does to the index that is searched meanwhile,
and `visitEdge_results` puts the parts of a visit together.
-/

set_option autoImplicit false

namespace McritSimilarity

open Python Prog

/-- The results a trace adds, in order: source and target. -/
def results (tr : List (Event VisitI)) : List (EntityRef × EntityRef) :=
  tr.filterMap fun
    | ⟨.addResult source target _ _, _⟩ => some (source, target)
    | _ => none

/-- What a visit learns on its way. -/
structure VisitAnswers where
  setup : VisitSetup
  payload : Json
  targets : Targets
  /-- The functions of the source node. -/
  sources : List Entity
  /-- The functions of the target node, as they are listed before the visit adds any. -/
  listed : List Entity
  /-- Where the target view has a function. -/
  hasFunction : ℤ → Bool

namespace VisitAnswers

def filter (v : VisitAnswers) : MatchFilter := visitFilter v.setup.config v.setup.fromSample

/-- The offset of a matched function. -/
def offset (v : VisitAnswers) (fid : ℤ) : Option ℤ := (v.targets.find? fid).map Prod.fst

/-- A target offset that is listed, up to bit 0, or that has a function. -/
def IsTarget (v : VisitAnswers) (offset : ℤ) : Prop :=
  (∃ e ∈ v.listed, sameUpToBit0 e.address offset) ∨ v.hasFunction offset = true ∨
    v.hasFunction (clearBit0 offset) = true

instance (v : VisitAnswers) (offset : ℤ) : Decidable (v.IsTarget offset) :=
  inferInstanceAs (Decidable (_ ∨ _))

end VisitAnswers

/-- The rows that become a result. -/
def Hit.Kept (v : VisitAnswers) (scheduled : List ℤ) (h : Hit) : Prop :=
  (∃ e ∈ v.sources, sameUpToBit0 e.address h.sourceOffset) ∧
    (∃ e ∈ firstEntity v.sources h.sourceOffset, e.entityId ∈ scheduled) ∧
      ∃ offset ∈ v.offset h.functionId, v.IsTarget offset

instance (v : VisitAnswers) (scheduled : List ℤ) : DecidablePred (Hit.Kept v scheduled) :=
  fun _ => inferInstanceAs (Decidable (_ ∧ _ ∧ _))

/-- The result of a row: from the entity its source offset resolves to, to the listed entity its target
offset resolves to, or to one created there. -/
structure EmittedAs (v : VisitAnswers) (fromNode toNode : SessionNode) (tr : List (Event VisitI))
    (h : Hit) (result : EntityRef × EntityRef) : Prop where
  source : ∃ e, firstEntity v.sources h.sourceOffset = some e ∧ result.1 = ⟨toNode.id, e.entityId⟩
  targetNode : result.2.nodeId = fromNode.id
  target : ∃ offset, v.offset h.functionId = some offset ∧
    ((∃ e, firstEntity v.listed offset = some e ∧ result.2.entityId = e.entityId) ∨
      firstEntity v.listed offset = none ∧ ∃ key ∈ aliases offset, ∃ name,
        (⟨.createEntity fromNode.id key name, result.2.entityId⟩ : Event VisitI) ∈ tr)

/-- The answers in the trace of a visit are `v`. -/
structure Answered (rt : Runtime) (fuel : ℕ) (fromNode toNode : SessionNode) (fromView toView : ViewId)
    (config : ProviderConfig) (v : VisitAnswers) (tr : List (Event VisitI)) : Prop where
  /-- Unless nothing is scheduled, the visit starts by obtaining setup, payload and offsets. -/
  obtained : toNode.scheduledEntities ≠ [] → ∃ matched tr₁ tr₂ tr₃ tr₄ tr₅,
    tr = tr₁ ++ (tr₂ ++ (tr₃ ++ (tr₄ ++ tr₅))) ∧
      Exec (visitSetup rt fuel fromView toView config) tr₁ (.returned v.setup) ∧
      Exec (matchPayload rt fuel v.setup.client v.setup.config toNode v.setup.fromSample
        v.setup.toSample) tr₂ (.returned v.payload) ∧
      Exec (advance (88 / 100)) tr₃ (.returned ()) ∧
      parseVsResult v.payload v.filter = .ok matched ∧
      Exec (lookupTargets rt v.setup.client v.setup.config.server
        (uniqueTargetFunctionIds matched)) tr₄ (.returned v.targets)
  sources : ∀ l, (⟨.entities toNode.id, l⟩ : Event VisitI) ∈ tr → functionEntities l = v.sources
  listed : ∀ l, (⟨.entities fromNode.id, l⟩ : Event VisitI) ∈ tr → functionEntities l = v.listed
  hasFunction : ∀ address found, (⟨.functionAt fromView address, found⟩ : Event VisitI) ∈ tr →
    found = v.hasFunction address

/-! ## Results of a part -/

theorem results_append (tr₁ tr₂ : List (Event VisitI)) :
    results (tr₁ ++ tr₂) = results tr₁ ++ results tr₂ := List.filterMap_append

theorem results_eq_nil_of {tr : List (Event VisitI)} (h : ∀ e ∈ tr, ¬ VisitOp.IsResult e.1) : results tr = [] := by
  refine List.filterMap_eq_nil_iff.2 fun e he => ?_
  have hnot := h e he
  obtain ⟨o, a⟩ := e
  cases o with
  | addResult => exact absurd trivial hnot
  | _ => rfl

/-- A part that adds no result has none in its trace. -/
theorem results_eq_nil {α : Type} {p : VisitProg α} {tr : List (Event VisitI)}
    {out : Outcome PyError α} (h : p.OnlyCalls fun o => ¬ VisitOp.IsResult o) (hex : Exec p tr out) :
    results tr = [] :=
  results_eq_nil_of fun e he => h.exec hex e he

theorem permits_notResult (rt : Runtime) (fuel : ℕ) (config : ProviderConfig) :
    Permits rt fuel config fun o => ¬ VisitOp.IsResult o where
  plain := fun _ _ ho _ hresult => ho hresult.isEmitted
  claims := fun _ ho _ => ho.not_isResult
  ensure := fun client report start stop opts => by
    refine (onlyCalls_true _).lift fun o _ => ?_
    cases o <;> exact id

/-- The result of a pair. -/
def pairRefs (fromNode toNode : SessionNode) (pair : MatchPair) : EntityRef × EntityRef :=
  (⟨toNode.id, pair.sourceEntityId⟩, ⟨fromNode.id, pair.targetEntityId⟩)

/-- A pair is emitted unless a stop is requested, and then the rest. -/
theorem emitPairs_returned {fromNode toNode : SessionNode} {pair : MatchPair} {pairs : List MatchPair}
    {tr : List (Event VisitI)} {n : ℕ} (h : Exec (emitPairs fromNode toNode (pair :: pairs)) tr (.returned n)) :
    ∃ resultId emitted tr', tr = ⟨.stopRequested, false⟩ ::
        ⟨.addResult (pairRefs fromNode toNode pair).1 (pairRefs fromNode toNode pair).2 pair.similarity pair.confidence,
          resultId⟩ :: tr' ∧ Exec (emitPairs fromNode toNode pairs) tr' (.returned emitted) := by
  obtain ⟨stop, tr₁, _, rfl, hstop, h₁⟩ := Exec.bind_returned h
  obtain ⟨_, tr₂, _, rfl, hraise, h₂⟩ := Exec.bind_returned h₁
  obtain ⟨resultId, tr₃, _, rfl, hadd, h₃⟩ := Exec.bind_returned h₂
  obtain ⟨emitted, tr₄, _, rfl, hrest, h₄⟩ := Exec.bind_returned h₃
  obtain rfl := Exec.op_returned hstop
  obtain ⟨rfl, hgoes⟩ := Exec.raiseIf_returned hraise
  obtain rfl := Exec.op_returned hadd
  obtain rfl := (Exec.ret_returned h₄).1
  rw [Bool.not_eq_true] at hgoes
  subst hgoes
  exact ⟨resultId, emitted, tr₄, by rw [List.append_nil]; rfl, hrest⟩

/-- The labels come first, then the pairs, and no results or labels after them. -/
theorem emitMatches_returned {fromNode toNode : SessionNode} {matched : List FunctionMatch} {targets : Targets}
    {sourceIndex targetIndex : EntityIndex} {tr : List (Event VisitI)} {b : Bool}
    (h : Exec (emitMatches fromNode toNode matched targets sourceIndex targetIndex) tr (.returned b)) :
    ∃ paired emitted tr₁ tr₂, paired = (pairMatches matched sourceIndex targetIndex toNode.scheduledEntities).1 ∧
      tr = ⟨.updateLabels (pairLabels fromNode targets paired), ()⟩ :: (tr₁ ++ tr₂) ∧
        Exec (emitPairs fromNode toNode paired) tr₁ (.returned emitted) ∧ ∀ e ∈ tr₂, ¬ VisitOp.IsEmitted e.1 := by
  obtain ⟨_, tr₁, _, rfl, hlabels, h₁⟩ := Exec.bind_returned h
  obtain ⟨emitted, tr₂, tr₃, rfl, hpairs, h₂⟩ := Exec.bind_returned h₁
  obtain rfl := Exec.op_returned hlabels
  refine ⟨_, emitted, tr₂, tr₃, rfl, rfl, hpairs, OnlyCalls.exec (P := fun o => ¬ VisitOp.IsEmitted o) ?_ h₂⟩
  split_ifs
  · trivial
  · exact .bind (ask_onlyCalls id) fun _ => trivial

theorem results_emitPairs {fromNode toNode : SessionNode} {pairs : List MatchPair}
    {tr : List (Event VisitI)} {n : ℕ}
    (h : Exec (emitPairs fromNode toNode pairs) tr (.returned n)) :
    results tr = pairs.map (pairRefs fromNode toNode) := by
  induction pairs generalizing tr n with
  | nil =>
    obtain ⟨rfl, -⟩ := Exec.ret_returned h
    rfl
  | cons pair pairs ih =>
    obtain ⟨resultId, emitted, tr', rfl, hrest⟩ := emitPairs_returned h
    rw [List.map_cons, ← ih hrest]
    rfl

theorem results_emitMatches {fromNode toNode : SessionNode} {matched : List FunctionMatch}
    {targets : Targets} {sourceIndex targetIndex : EntityIndex} {tr : List (Event VisitI)} {b : Bool}
    (h : Exec (emitMatches fromNode toNode matched targets sourceIndex targetIndex) tr
      (.returned b)) :
    results tr = (pairMatches matched sourceIndex targetIndex toNode.scheduledEntities).1.map
      (pairRefs fromNode toNode) := by
  obtain ⟨_, emitted, tr₁, tr₂, rfl, rfl, hpairs, hrest⟩ := emitMatches_returned h
  have hend : results tr₂ = [] := results_eq_nil_of fun e he hresult => hrest e he hresult.isEmitted
  show results (tr₁ ++ tr₂) = _
  rw [results_append, results_emitPairs hpairs, hend, List.append_nil]

/-! ## Created entities -/

/-- What creating entities for matches does to the index: what was found before is found as before,
and every new key is an address that resolved to nothing and at which an entity was created. -/
structure Grown (hasFunction : ℤ → Bool) (nodeId : ℤ) (tr : List (Event VisitI))
    (old new : EntityIndex) : Prop where
  keeps : ∀ key e, old.find? key = some e → new.find? key = some e
  fresh : ∀ key e, new.find? key = some e → old.find? key = none →
    lookupEntity old key = none ∧
      (hasFunction key = true ∨ hasFunction (clearBit0 key) = true) ∧
        ∃ name, (⟨.createEntity nodeId key name, e.entityId⟩ : Event VisitI) ∈ tr

section Grown

variable {hasFunction : ℤ → Bool} {nodeId : ℤ} {tr tr' : List (Event VisitI)}
  {old mid new : EntityIndex}

theorem Grown.refl (index : EntityIndex) : Grown hasFunction nodeId tr index index where
  keeps := fun _ _ h => h
  fresh := fun key e h hnone => by
    rw [h] at hnone
    cases hnone

theorem Grown.mono (h : Grown hasFunction nodeId tr old new) (hsub : tr ⊆ tr') :
    Grown hasFunction nodeId tr' old new where
  keeps := h.keeps
  fresh := fun key e he hold => by
    obtain ⟨hnone, hfunction, name, hcreated⟩ := h.fresh key e he hold
    exact ⟨hnone, hfunction, name, hsub hcreated⟩

theorem Grown.isSome_lookupEntity (h : Grown hasFunction nodeId tr old new) {a : ℤ}
    (hold : (lookupEntity old a).isSome) : (lookupEntity new a).isSome := by
  rw [Option.isSome_iff_ne_none] at hold ⊢
  intro hnew
  refine hold (lookupEntity_eq_none_iff.2 fun key hkey => ?_)
  by_contra hfound
  obtain ⟨e, he⟩ := Option.ne_none_iff_exists'.1 hfound
  have hkept := h.keeps key e he
  rw [lookupEntity_eq_none_iff.1 hnew key hkey] at hkept
  cases hkept

theorem Grown.trans (h : Grown hasFunction nodeId tr old mid)
    (h' : Grown hasFunction nodeId tr mid new) : Grown hasFunction nodeId tr old new where
  keeps := fun key e he => h'.keeps key e (h.keeps key e he)
  fresh := fun key e he hold => by
    cases hmid : mid.find? key with
    | some e' =>
      obtain rfl : e' = e := Option.some.inj ((h'.keeps key e' hmid).symm.trans he)
      exact h.fresh key e' hmid hold
    | none =>
      obtain ⟨hnone, hcreated⟩ := h'.fresh key e he hmid
      refine ⟨?_, hcreated⟩
      by_contra hsome
      have := h.isSome_lookupEntity (Option.isSome_iff_ne_none.2 hsome)
      rw [hnone] at this
      cases this

/-- What resolved before resolves as before: the new keys are no aliases of it. -/
theorem Grown.lookupEntity_eq_some (h : Grown hasFunction nodeId tr old new) {a : ℤ} {e : Entity}
    (hold : lookupEntity old a = some e) : lookupEntity new a = some e := by
  rw [lookupEntity_eq] at hold ⊢
  cases hfirst : old.find? a with
  | some e' =>
    rw [hfirst, Option.some_or] at hold
    rw [h.keeps a e' hfirst, Option.some_or, hold]
  | none =>
    rw [hfirst, Option.none_or] at hold
    have hnone : new.find? a = none := by
      by_contra hfound
      obtain ⟨e', he'⟩ := Option.ne_none_iff_exists'.1 hfound
      have hunresolved := (h.fresh a e' he' hfirst).1
      rw [lookupEntity_eq, hfirst, hold, Option.none_or] at hunresolved
      cases hunresolved
    rw [hnone, Option.none_or, h.keeps _ e hold]

/-- What resolves only now resolves to an entity created at the address or at its alias. -/
theorem Grown.created (h : Grown hasFunction nodeId tr old new) {a : ℤ} {e : Entity}
    (hold : lookupEntity old a = none) (hnew : lookupEntity new a = some e) :
    (hasFunction a = true ∨ hasFunction (clearBit0 a) = true) ∧ ∃ key ∈ aliases a, ∃ name,
      (⟨.createEntity nodeId key name, e.entityId⟩ : Event VisitI) ∈ tr := by
  obtain ⟨key, hkey, hfound⟩ := List.exists_of_findSome?_eq_some hnew
  obtain ⟨-, hfunction, name, hcreated⟩ := h.fresh key e hfound (lookupEntity_eq_none_iff.1 hold key hkey)
  refine ⟨?_, key, hkey, name, hcreated⟩
  rcases mem_aliases.1 hkey with rfl | rfl
  · exact hfunction
  · rw [clearBit0_idem, or_self] at hfunction
    exact Or.inr hfunction

end Grown

theorem viewHasFunction_eq {hasFunction : ℤ → Bool} {view : ViewId} {offset : ℤ}
    {tr : List (Event VisitI)} {found : Bool}
    (hanswers : ∀ address found, (⟨.functionAt view address, found⟩ : Event VisitI) ∈ tr →
      found = hasFunction address)
    (h : Exec (viewHasFunction view offset) tr (.returned found)) :
    found = (hasFunction offset || hasFunction (clearBit0 offset)) := by
  obtain ⟨first, tr₁, tr₂, rfl, hfirst, h₁⟩ := Exec.bind_returned h
  obtain rfl := Exec.op_returned hfirst
  have hoffset : first = hasFunction offset := hanswers offset first (by simp)
  cases first with
  | true =>
    obtain ⟨-, rfl⟩ := Exec.ret_returned h₁
    rw [← hoffset, Bool.true_or]
  | false =>
    obtain rfl := Exec.op_returned h₁
    rw [← hoffset, Bool.false_or]
    exact hanswers (clearBit0 offset) found (by simp)

/-- Creating an entity where the view has a function makes the offset resolve. -/
theorem addEntity_grown {hasFunction : ℤ → Bool} {fromNode : SessionNode} {view : ViewId}
    {report : SmdaReport} {offset : ℤ} {index index' : EntityIndex} {tr : List (Event VisitI)}
    (hanswers : ∀ address found, (⟨.functionAt view address, found⟩ : Event VisitI) ∈ tr →
      found = hasFunction address)
    (hunresolved : lookupEntity index offset = none)
    (h : Exec (addEntity fromNode view report offset index) tr (.returned index')) :
    Grown hasFunction fromNode.id tr index index' ∧
      (hasFunction offset = true ∨ hasFunction (clearBit0 offset) = true →
        (lookupEntity index' offset).isSome) := by
  obtain ⟨found, tr₁, tr₂, rfl, hfound, h₁⟩ := Exec.bind_returned h
  have hview := viewHasFunction_eq
    (fun address found hmem => hanswers address found (List.mem_append_left _ hmem)) hfound
  cases found with
  | false =>
    obtain ⟨-, rfl⟩ := Exec.ret_returned h₁
    refine ⟨.refl _, fun hfunction => ?_⟩
    rw [← Bool.or_eq_true, ← hview] at hfunction
    cases hfunction
  | true =>
    obtain ⟨entityId, tr₃, tr₄, rfl, hcreate, h₂⟩ := Exec.bind_returned h₁
    obtain rfl := Exec.op_returned hcreate
    obtain ⟨-, rfl⟩ := Exec.ret_returned h₂
    have hkey : index.find? offset = none :=
      lookupEntity_eq_none_iff.1 hunresolved offset (mem_aliases.2 (Or.inl rfl))
    refine ⟨⟨fun key e he => ?_, fun key e he hnone => ?_⟩, fun _ => ?_⟩
    · rw [OrderedMap.find?_put]
      split_ifs with hk
      · rw [hk, hkey] at he
        cases he
      · exact he
    · rw [OrderedMap.find?_put] at he
      split_ifs at he with hk
      · obtain rfl := Option.some.inj he
        subst hk
        refine ⟨hunresolved, ?_, reportedName report key, by simp⟩
        rw [← Bool.or_eq_true]
        exact hview.symm
      · rw [hnone] at he
        cases he
    · rw [lookupEntity_eq, OrderedMap.find?_put, if_pos rfl]
      rfl

theorem addMatchOnlyEntities_grown {hasFunction : ℤ → Bool} {fromNode : SessionNode} {view : ViewId}
    {report : SmdaReport} {matched : List FunctionMatch} {index index' : EntityIndex}
    {tr : List (Event VisitI)}
    (hanswers : ∀ address found, (⟨.functionAt view address, found⟩ : Event VisitI) ∈ tr →
      found = hasFunction address)
    (h : Exec (addMatchOnlyEntities fromNode view report matched index) tr (.returned index')) :
    Grown hasFunction fromNode.id tr index index' ∧
      ∀ m ∈ matched, ∀ offset, m.targetOffset = some offset →
        hasFunction offset = true ∨ hasFunction (clearBit0 offset) = true →
          (lookupEntity index' offset).isSome := by
  induction matched generalizing index tr with
  | nil =>
    obtain ⟨-, rfl⟩ := Exec.ret_returned h
    exact ⟨.refl _, by simp⟩
  | cons m matched ih =>
    unfold addMatchOnlyEntities at h
    cases hoffset : m.targetOffset with
    | none =>
      simp only [hoffset] at h
      obtain ⟨hgrown, hresolve⟩ := ih hanswers h
      refine ⟨hgrown, fun m' hm' offset hm'offset => ?_⟩
      rcases List.mem_cons.1 hm' with rfl | hm'
      · rw [hoffset] at hm'offset
        cases hm'offset
      · exact hresolve m' hm' offset hm'offset
    | some offset =>
      simp only [hoffset] at h
      by_cases hsome : (lookupEntity index offset).isSome
      · rw [if_pos hsome] at h
        obtain ⟨hgrown, hresolve⟩ := ih hanswers h
        refine ⟨hgrown, fun m' hm' offset' hm'offset => ?_⟩
        rcases List.mem_cons.1 hm' with rfl | hm'
        · rw [hoffset, Option.some.injEq] at hm'offset
          subst hm'offset
          exact fun _ => hgrown.isSome_lookupEntity hsome
        · exact hresolve m' hm' offset' hm'offset
      · rw [if_neg hsome] at h
        rw [Option.not_isSome_iff_eq_none] at hsome
        obtain ⟨mid, tr₁, tr₂, rfl, hadd, hrest⟩ := Exec.bind_returned h
        obtain ⟨hgrown, hadded⟩ := addEntity_grown
          (fun address found hmem => hanswers address found (List.mem_append_left _ hmem)) hsome hadd
        obtain ⟨hgrown', hresolve⟩ := ih
          (fun address found hmem => hanswers address found (List.mem_append_right _ hmem)) hrest
        have hboth := (hgrown.mono (List.subset_append_left tr₁ tr₂)).trans
          (hgrown'.mono (List.subset_append_right tr₁ tr₂))
        refine ⟨hboth, fun m' hm' offset' hm'offset => ?_⟩
        rcases List.mem_cons.1 hm' with rfl | hm'
        · rw [hoffset, Option.some.injEq] at hm'offset
          subst hm'offset
          exact fun hfunction => hgrown'.isSome_lookupEntity (hadded hfunction)
        · exact hresolve m' hm' offset' hm'offset

/-- The index of the target node after a visit has added what it matched. -/
theorem targetEntities_grown {hasFunction : ℤ → Bool} {fromNode : SessionNode} {view : ViewId}
    {report : SmdaReport} {matched : List FunctionMatch} {index : EntityIndex}
    {tr : List (Event VisitI)} {listed : List Entity}
    (hlisted : ∀ l, (⟨.entities fromNode.id, l⟩ : Event VisitI) ∈ tr → functionEntities l = listed)
    (hanswers : ∀ address found, (⟨.functionAt view address, found⟩ : Event VisitI) ∈ tr →
      found = hasFunction address)
    (h : Exec (targetEntities fromNode view report matched) tr (.returned index)) :
    Grown hasFunction fromNode.id tr (indexEntities listed) index ∧
      ∀ m ∈ matched, ∀ offset, m.targetOffset = some offset →
        hasFunction offset = true ∨ hasFunction (clearBit0 offset) = true →
          (lookupEntity index offset).isSome := by
  obtain ⟨_, tr₁, _, rfl, hlock, h₁⟩ := Exec.bind_returned h
  obtain ⟨_, tr₂, rfl, hblock, -⟩ := Exec.tryFinally_returned h₁
  obtain ⟨l, tr₃, tr₄, rfl, hentities, hadd⟩ := Exec.bind_returned hblock
  obtain rfl := Exec.op_returned hlock
  obtain rfl := Exec.op_returned hentities
  obtain rfl := hlisted l (by simp)
  obtain ⟨hgrown, hresolve⟩ := addMatchOnlyEntities_grown
    (fun address found hmem => hanswers address found (by simp [hmem])) hadd
  exact ⟨hgrown.mono fun e he => by simp [he], hresolve⟩

/-! ## Pairs -/

theorem forall₂_filter_filterMap {α β γ : Type} {R : β → γ → Prop} {p : β → Prop} [DecidablePred p]
    {f : α → Option γ} {g : α → β} {l : List α}
    (hsome : ∀ a ∈ l, p (g a) → ∃ c, f a = some c ∧ R (g a) c)
    (hnone : ∀ a ∈ l, ¬ p (g a) → f a = none) :
    List.Forall₂ R ((l.map g).filter p) (l.filterMap f) := by
  induction l with
  | nil => exact .nil
  | cons a l ih =>
    have ih := ih (fun b hb => hsome b (List.mem_cons_of_mem a hb))
      (fun b hb => hnone b (List.mem_cons_of_mem a hb))
    by_cases hp : p (g a)
    · obtain ⟨c, hc, hR⟩ := hsome a List.mem_cons_self hp
      rw [List.map_cons, List.filter_cons_of_pos (by simpa using hp), List.filterMap_cons_some hc]
      exact .cons hR ih
    · rw [List.map_cons, List.filter_cons_of_neg (by simpa using hp),
        List.filterMap_cons_none (hnone a List.mem_cons_self hp)]
      exact ih

/-- What `pair_matches` makes of a match whose offsets resolve. -/
theorem pairMatch_eq {sourceIndex targetIndex : EntityIndex} {scheduled : List ℤ} {m : FunctionMatch}
    {offset : ℤ} {source target : Entity} (hoffset : m.targetOffset = some offset)
    (hsource : lookupEntity sourceIndex m.sourceOffset = some source)
    (htarget : lookupEntity targetIndex offset = some target) (hmem : source.entityId ∈ scheduled) :
    pairMatch sourceIndex targetIndex scheduled m = .paired (matchPair m offset source target) := by
  simp only [pairMatch, hoffset, hsource, htarget, if_pos hmem]

/-- A match is paired only when both of its offsets resolve, the source to a scheduled entity. -/
theorem exists_of_pairMatch {sourceIndex targetIndex : EntityIndex} {scheduled : List ℤ}
    {m : FunctionMatch} {pair : MatchPair}
    (h : pairMatch sourceIndex targetIndex scheduled m = .paired pair) :
    ∃ offset source target, m.targetOffset = some offset ∧
      lookupEntity sourceIndex m.sourceOffset = some source ∧
        lookupEntity targetIndex offset = some target ∧ source.entityId ∈ scheduled := by
  unfold pairMatch at h
  split at h
  · cases h
  · next offset hoffset =>
    split at h
    · next source target hsource htarget =>
      split_ifs at h with hmem
      exact ⟨offset, source, target, hoffset, hsource, htarget, hmem⟩
    · cases h

section Emitted

variable {v : VisitAnswers} {fromNode toNode : SessionNode} {tr : List (Event VisitI)}
  {targetIndex : EntityIndex} {m : FunctionMatch} {offset : ℤ}

/-- Once entities were created for it, an offset resolves when it is a target. -/
theorem isSome_lookupEntity_iff
    (hgrown : Grown v.hasFunction fromNode.id tr (indexEntities v.listed) targetIndex)
    (hresolve : v.hasFunction offset = true ∨ v.hasFunction (clearBit0 offset) = true →
      (lookupEntity targetIndex offset).isSome) :
    (lookupEntity targetIndex offset).isSome ↔ v.IsTarget offset := by
  have hlisted : (lookupEntity (indexEntities v.listed) offset).isSome ↔
      ∃ e ∈ v.listed, sameUpToBit0 e.address offset := by
    rw [lookupEntity_indexEntities, isSome_firstEntity_iff]
  constructor
  · intro hnew
    by_cases hold : (lookupEntity (indexEntities v.listed) offset).isSome
    · exact Or.inl (hlisted.1 hold)
    · obtain ⟨e, he⟩ := Option.isSome_iff_exists.1 hnew
      exact Or.inr (hgrown.created (Option.not_isSome_iff_eq_none.1 hold) he).1
  · rintro (hlist | hfunction)
    · exact hgrown.isSome_lookupEntity (hlisted.2 hlist)
    · exact hresolve hfunction

/-- The entity an offset resolves to is listed, or it was created there. -/
theorem emittedAs_matchPair
    (hgrown : Grown v.hasFunction fromNode.id tr (indexEntities v.listed) targetIndex)
    {source target : Entity} (hoffset : v.offset m.targetFunctionId = some offset)
    (hsource : lookupEntity (indexEntities v.sources) m.sourceOffset = some source)
    (htarget : lookupEntity targetIndex offset = some target) :
    EmittedAs v fromNode toNode tr m.hit
      (pairRefs fromNode toNode (matchPair m offset source target)) where
  source := by
    rw [lookupEntity_indexEntities] at hsource
    exact ⟨source, hsource, rfl⟩
  targetNode := rfl
  target := by
    refine ⟨offset, hoffset, ?_⟩
    cases hold : lookupEntity (indexEntities v.listed) offset with
    | some e =>
      have heq : target = e := by
        have hnew := hgrown.lookupEntity_eq_some hold
        rw [htarget] at hnew
        exact Option.some.inj hnew
      rw [lookupEntity_indexEntities] at hold
      exact Or.inl ⟨e, hold, by rw [← heq]; rfl⟩
    | none =>
      have hcreated := (hgrown.created hold htarget).2
      rw [lookupEntity_indexEntities] at hold
      exact Or.inr ⟨hold, hcreated⟩

/-- The pairs of the parsed matches are the kept rows. -/
theorem forall₂_pairMatches {matched : List FunctionMatch}
    (hgrown : Grown v.hasFunction fromNode.id tr (indexEntities v.listed) targetIndex)
    (hparsed : ∀ m ∈ matched, m.Parsed)
    (hresolve : ∀ m ∈ withTargetOffsets v.offset matched, ∀ offset, m.targetOffset = some offset →
      v.hasFunction offset = true ∨ v.hasFunction (clearBit0 offset) = true →
        (lookupEntity targetIndex offset).isSome) :
    List.Forall₂ (EmittedAs v fromNode toNode tr)
      ((matched.map FunctionMatch.hit).filter (Hit.Kept v toNode.scheduledEntities))
      ((pairMatches (withTargetOffsets v.offset matched) (indexEntities v.sources) targetIndex
        toNode.scheduledEntities).1.map (pairRefs fromNode toNode)) := by
  unfold pairMatches
  rw [withTargetOffsets, List.filterMap_map, List.map_filterMap]
  have hoffset : ∀ m ∈ matched, (v.offset m.targetFunctionId).or m.targetOffset =
      v.offset m.targetFunctionId := fun m hm => by rw [(hparsed m hm).targetOffset, Option.or_none]
  have hmem : ∀ m ∈ matched, { m with targetOffset := (v.offset m.targetFunctionId).or m.targetOffset } ∈
      withTargetOffsets v.offset matched := fun m hm => List.mem_map_of_mem hm
  refine forall₂_filter_filterMap (fun m hm hkept => ?_) fun m hm hnot => ?_
  · obtain ⟨-, ⟨source, hsource, hscheduled⟩, offset, hfound, htarget⟩ := hkept
    have hset := (hoffset m hm).trans hfound
    have hindexed : lookupEntity (indexEntities v.sources) m.sourceOffset = some source := by
      rw [lookupEntity_indexEntities]
      exact hsource
    have hsome := (isSome_lookupEntity_iff hgrown (hresolve _ (hmem m hm) offset hset)).2 htarget
    obtain ⟨target, htarget⟩ := Option.isSome_iff_exists.1 hsome
    have hpair := pairMatch_eq (m := { m with
      targetOffset := (v.offset m.targetFunctionId).or m.targetOffset }) hset hindexed htarget hscheduled
    refine ⟨_, ?_, emittedAs_matchPair hgrown hfound hindexed htarget⟩
    simp only [Function.comp_apply, hpair, Option.map_some]
    rfl
  · simp only [Function.comp_apply]
    split
    · next pair hpair =>
      obtain ⟨offset, source, target, hset, hsource, htarget, hscheduled⟩ := exists_of_pairMatch hpair
      have hfound : v.offset m.targetFunctionId = some offset := (hoffset m hm).symm.trans hset
      have hindexed : firstEntity v.sources m.hit.sourceOffset = some source := by
        rw [← lookupEntity_indexEntities]
        exact hsource
      refine absurd ⟨?_, ⟨source, hindexed, hscheduled⟩, offset, hfound, ?_⟩ hnot
      · rw [← isSome_firstEntity_iff, hindexed]
        rfl
      · refine (isSome_lookupEntity_iff hgrown (hresolve _ (hmem m hm) offset hset)).1 ?_
        rw [htarget]
        rfl
    · rfl

end Emitted

/-! ## Visits -/

/-- The results of a visit from its payload on, as a part of the trace of the visit. -/
theorem visitPayload_results {rt : Runtime} {fromNode toNode : SessionNode} {fromView : ViewId}
    {v : VisitAnswers} {p : List Summary} {matched : List FunctionMatch}
    {tr tr₁ tr₂ : List (Event VisitI)} {b : Bool} (hpayload : PayloadJson v.payload p)
    (hmatched : parseVsResult v.payload v.filter = .ok matched)
    (htargets : Exec (lookupTargets rt v.setup.client v.setup.config.server
      (uniqueTargetFunctionIds matched)) tr₁ (.returned v.targets))
    (hsources : ∀ l, (⟨.entities toNode.id, l⟩ : Event VisitI) ∈ tr → functionEntities l = v.sources)
    (hlisted : ∀ l, (⟨.entities fromNode.id, l⟩ : Event VisitI) ∈ tr → functionEntities l = v.listed)
    (hanswers : ∀ address found, (⟨.functionAt fromView address, found⟩ : Event VisitI) ∈ tr →
      found = v.hasFunction address) (hsub : tr₂ ⊆ tr)
    (h : Exec (visitPayload rt fromNode toNode fromView v.setup.config v.setup.client
      v.setup.fromReport v.setup.fromSample v.payload) (tr₁ ++ tr₂) (.returned b)) :
    List.Forall₂ (EmittedAs v fromNode toNode tr)
      ((selected v.filter p).filter (Hit.Kept v toNode.scheduledEntities)) (results tr₂) := by
  obtain ⟨ms, hparse, hhits, hparsed⟩ := parseVsResult_payload v.filter hpayload
  obtain rfl : matched = ms := Except.ok.inj (hmatched.symm.trans hparse)
  have hplain := (permits_notResult rt 0 v.setup.config).plain
  unfold visitPayload at h
  rw [show visitFilter v.setup.config v.setup.fromSample = v.filter from rfl, hmatched] at h
  have h₁ := Exec.after (p := lookupTargets rt v.setup.client v.setup.config.server _) h htargets
  obtain ⟨_, tr₃, _, rfl, hadvance, h₂⟩ := Exec.bind_returned h₁
  obtain ⟨l, tr₄, _, rfl, hentities, h₃⟩ := Exec.bind_returned h₂
  obtain ⟨targetIndex, tr₅, tr₆, rfl, htarget, hemit⟩ := Exec.bind_returned h₃
  obtain rfl := Exec.op_returned hentities
  have hsub₅ : tr₅ ⊆ tr := fun e he => hsub (by simp [he])
  obtain ⟨hgrown, hresolve⟩ := targetEntities_grown (fun l hl => hlisted l (hsub₅ hl))
    (fun address found hmem => hanswers address found (hsub₅ hmem)) htarget
  have hresults : results (tr₃ ++ ([⟨.entities toNode.id, l⟩] ++ (tr₅ ++ tr₆))) = results tr₆ := by
    rw [results_append, results_append, results_append,
      results_eq_nil (advance_onlyCalls hplain.ambient _) hadvance,
      results_eq_nil (targetEntities_onlyCalls hplain.ambient _ _ _ _) htarget]
    rfl
  rw [hresults, results_emitMatches hemit, hsources l (hsub (by simp)), ← hhits]
  exact forall₂_pairMatches (hgrown.mono hsub₅) hparsed hresolve

/-- An unstopped visit adds exactly the kept rows as results, in order. -/
theorem visitEdge_results {rt : Runtime} {fuel : ℕ} {fromNode toNode : SessionNode}
    {fromView toView : ViewId} {config : ProviderConfig} {v : VisitAnswers} {p : List Summary}
    {tr : List (Event VisitI)} {b : Bool} (hfrom : fromNode.view = some fromView)
    (hto : toNode.view = some toView) (hpayload : PayloadJson v.payload p)
    (hanswered : Answered rt fuel fromNode toNode fromView toView config v tr)
    (hvisit : Exec (visitEdge rt fuel fromNode toNode config) tr (.returned b)) :
    List.Forall₂ (EmittedAs v fromNode toNode tr)
      ((selected v.filter p).filter (Hit.Kept v toNode.scheduledEntities)) (results tr) := by
  by_cases hscheduled : toNode.scheduledEntities = []
  · -- Nothing is scheduled: no row is kept, and the visit returns at once.
    rw [visitEdge, if_pos hscheduled] at hvisit
    obtain ⟨rfl, -⟩ := Exec.ret_returned hvisit
    have hnone : (selected v.filter p).filter (Hit.Kept v toNode.scheduledEntities) = [] := by
      refine List.filter_eq_nil_iff.2 fun h _ hkept => ?_
      obtain ⟨-, ⟨e, -, he⟩, -⟩ := of_decide_eq_true hkept
      rw [hscheduled] at he
      cases he
    rw [hnone]
    exact .nil
  · obtain ⟨matched, tr₁, tr₂, tr₃, tr₄, tr₅, rfl, hsetup, hmatch, hadvance, hmatched, htargets⟩ :=
      hanswered.obtained hscheduled
    rw [visitEdge, if_neg hscheduled] at hvisit
    simp only [hfrom, hto] at hvisit
    have h₁ := Exec.after (p := visitSetup rt fuel fromView toView config) hvisit hsetup
    have h₂ := Exec.after (p := matchPayload rt fuel v.setup.client v.setup.config toNode
      v.setup.fromSample v.setup.toSample) h₁ hmatch
    have h₃ := Exec.after (p := advance (88 / 100)) h₂ hadvance
    have hpermits := permits_notResult rt fuel v.setup.config
    have hresults : results (tr₁ ++ (tr₂ ++ (tr₃ ++ (tr₄ ++ tr₅)))) = results tr₅ := by
      rw [results_append, results_append, results_append, results_append,
        results_eq_nil (visitSetup_onlyCalls _ _ hpermits.plain
          fun config' _ => permits_notResult rt fuel config') hsetup,
        results_eq_nil (matchPayload_onlyCalls hpermits _ _ _ _) hmatch,
        results_eq_nil (advance_onlyCalls hpermits.plain.ambient _) hadvance,
        results_eq_nil (lookupTargets_onlyCalls hpermits.plain (fun _ ho => ho.not_isResult) _ _ _) htargets]
      rfl
    rw [hresults]
    exact visitPayload_results hpayload hmatched htargets hanswered.sources hanswered.listed
      hanswered.hasFunction (fun e he => by simp [he]) h₃

/-! ## A visit with rivals -/

def exampleFrom : SessionNode := ⟨7, some 0, [], []⟩

/-- Two of the three functions are scheduled. -/
def exampleTo : SessionNode := ⟨3, some 1, [10, 12], [some 0, some 0]⟩

def exampleConfig : ProviderConfig := { server := remoteServer, queryPerNode := true, maxResults := 2 }

/-- The first function has two rows of the same score, one of another sample, one of a low score and one too many. -/
def exampleSummaries : List Summary :=
  [⟨0x1000, 1, 0, [⟨0, 9, 5, .finite 90, 1⟩, ⟨0, 9, 6, .finite 90, 1⟩, ⟨0, 4, 5, .finite 99, 1⟩,
      ⟨0, 9, 8, .finite 20, 1⟩, ⟨0, 9, 7, .finite 60, 1⟩]⟩,
    ⟨0x1100, 2, 0, [⟨0, 9, 6, .finite 80, 1⟩]⟩,
    ⟨0x1200, 3, 0, [⟨0, 9, 8, .finite 70, 1⟩, ⟨0, 9, 7, .finite 95, 1⟩]⟩]

def exampleOffsets : List (ℤ × ℤ) := [(5, 0x2000), (6, 0x3000), (7, 0x2001), (8, 0x5000)]

/-- One target is listed.  The view has a function at `0x2000`, which functions 5 and 7 are at, and none at `0x5000`. -/
def exampleAnswer : (o : VisitOp) → o.Ans
  | .exportReport _ => .ok emptyReport
  | .claimSample _ => .hit ⟨9, "aa", true⟩
  | .claimCorpus _ => .hit (payloadOf exampleSummaries)
  | .getOffset key => (exampleOffsets.lookup key.2).map fun offset => (offset, "")
  | .entities nodeId =>
    if nodeId = 3 then
      [(10, some ⟨true, 0x1000, "f"⟩), (11, some ⟨true, 0x1100, "g"⟩), (12, some ⟨true, 0x1200, "h"⟩)]
    else [(20, some ⟨true, 0x3000, "t"⟩)]
  | .functionAt _ address => decide (address = 0x2000)
  | .createEntity _ _ _ => (42 : ℤ)
  | .addResult _ _ _ _ => (1 : ℤ)
  | o => idleAnswer o

def exampleEnv : (o : VisitI.Op) → VisitI.Ans o := exampleAnswer

def exampleRuntime : Runtime := ⟨fun _ => none, fun _ => ""⟩

def exampleClient : McritClient := ⟨remoteServer, none, none, some 30⟩

def exampleAnswers : VisitAnswers where
  setup := ⟨exampleConfig, exampleClient, emptyReport, ⟨9, "aa", true⟩, ⟨9, "aa", true⟩⟩
  payload := payloadOf exampleSummaries
  targets := exampleOffsets.foldl (fun targets e => targets.put e.1 (e.2, "")) .empty
  sources := [⟨10, 0x1000, "f"⟩, ⟨11, 0x1100, "g"⟩, ⟨12, 0x1200, "h"⟩]
  listed := [⟨20, 0x3000, "t"⟩]
  hasFunction := fun address => decide (address = 0x2000)

def exampleMatched : List FunctionMatch :=
  (parseVsResult (payloadOf exampleSummaries) exampleAnswers.filter).toOption.getD []

def exampleVisit : VisitProg Bool := visitEdge exampleRuntime 0 exampleFrom exampleTo exampleConfig

def exampleTrace : List (Event VisitI) := exampleVisit.trace exampleEnv

theorem exec_exampleVisit : Exec exampleVisit exampleTrace (.returned true) := by
  have hout : exampleVisit.outcome exampleEnv = .returned true := by
    with_unfolding_all rfl
  exact exec_of_outcome exampleEnv hout

theorem answered_exampleTrace :
    Answered exampleRuntime 0 exampleFrom exampleTo 0 1 exampleConfig exampleAnswers exampleTrace where
  obtained := fun _ => by
    have hsetup : (visitSetup exampleRuntime 0 0 1 exampleConfig).outcome exampleEnv =
        .returned exampleAnswers.setup := by
      with_unfolding_all rfl
    have hmatch : (matchPayload exampleRuntime 0 exampleClient exampleConfig exampleTo ⟨9, "aa", true⟩
        ⟨9, "aa", true⟩).outcome exampleEnv = .returned exampleAnswers.payload := by
      with_unfolding_all rfl
    have hparse : parseVsResult exampleAnswers.payload exampleAnswers.filter = .ok exampleMatched := by
      with_unfolding_all rfl
    have htargets : (lookupTargets exampleRuntime exampleClient exampleConfig.server
        (uniqueTargetFunctionIds exampleMatched)).outcome exampleEnv = .returned exampleAnswers.targets := by
      with_unfolding_all rfl
    refine ⟨exampleMatched, _, _, _, _, exampleTrace.drop 29, ?_, exec_of_outcome exampleEnv hsetup,
      exec_of_outcome exampleEnv hmatch, exec_of_outcome exampleEnv rfl, hparse, exec_of_outcome exampleEnv htargets⟩
    with_unfolding_all rfl
  sources := fun l hl => by
    rw [eq_of_mem_trace exampleEnv hl]
    rfl
  listed := fun l hl => by
    rw [eq_of_mem_trace exampleEnv hl]
    rfl
  hasFunction := fun address found hmem => eq_of_mem_trace exampleEnv hmem

/-- Two rows of the first function are rivals.  A row of the third one finds the entity that was created for the first;
those of an unscheduled function and of a target that is nowhere are dropped. -/
theorem visitEdge_results_example :
    (results exampleTrace = [(⟨3, 10⟩, ⟨7, 42⟩), (⟨3, 10⟩, ⟨7, 20⟩), (⟨3, 12⟩, ⟨7, 42⟩)]) ∧
      (selected exampleAnswers.filter exampleSummaries).length = 5 ∧
        List.Forall₂ (EmittedAs exampleAnswers exampleFrom exampleTo exampleTrace)
          ((selected exampleAnswers.filter exampleSummaries).filter
            (Hit.Kept exampleAnswers exampleTo.scheduledEntities)) (results exampleTrace) :=
  ⟨by decide +kernel, by decide +kernel, visitEdge_results rfl rfl (payloadJson_payloadOf _) answered_exampleTrace
    exec_exampleVisit⟩

end McritSimilarity

import McritSimilarity.Lib.Machine
import McritSimilarity.MalformedPayloads
import McritSimilarity.VisitResults

/-!
# Labels of matched functions

The labels of a provider over runs of edge visits.  `Paired` takes a visit apart down to its pairs, and
`Paired.written_eq` says which labels it writes: none is ever taken back, and they are keyed by offset.  Under
`KeepsLabels` the labels follow the last visit.
-/

set_option autoImplicit false

namespace McritSimilarity

open Python Prog

/-- `_labels`: by target node and target entity. -/
abbrev Labels := OrderedMap (ℤ × ℤ) String

/-- `_label`. -/
def label (labels : Labels) (target : EntityRef) : String := (labels.find? (target.nodeId, target.entityId)).getD ""

/-- An edge visit: its nodes and settings, the operations it performs and how it ends. -/
structure EdgeVisit where
  fuel : ℕ
  fromNode : SessionNode
  toNode : SessionNode
  config : ProviderConfig
  trace : List (Event VisitI)
  out : Outcome PyError Bool
  /-- The corpus label that the server's entry of each function has at the time. -/
  carried : ℤ → String

/-- The labels a trace writes, in order. -/
def written (tr : List (Event VisitI)) : List ((ℤ × ℤ) × String) :=
  tr.flatMap fun
    | ⟨.updateLabels labels, _⟩ => labels
    | _ => []

namespace EdgeVisit

variable (rt : Runtime)

/-- The entries that are fetched carry these labels. -/
def Fetched (v : EdgeVisit) : Prop :=
  ∀ client functionIds entries, ⟨.server client (.getFunctionsByIds functionIds), .ok entries⟩ ∈ v.trace →
    ∀ e ∈ targetFunctions rt entries, e.2.2 = v.carried e.1

/-- An entity of the target node. -/
def target (v : EdgeVisit) (pair : MatchPair) : EntityRef := ⟨v.fromNode.id, pair.targetEntityId⟩

end EdgeVisit

/-- The labels of a provider after a visit. -/
def visitStep (rt : Runtime) (s : Labels) (v : EdgeVisit) (t : Labels) : Prop :=
  Exec (visitEdge rt v.fuel v.fromNode v.toNode v.config) v.trace v.out ∧ v.Fetched rt ∧ t = s.update (written v.trace)

/-! ## Pairs of a visit -/

/-- The pairs with their matches. -/
def pairsOf (matched : List FunctionMatch) (sourceIndex targetIndex : EntityIndex) (scheduled : List ℤ) :
    List (FunctionMatch × MatchPair) :=
  matched.filterMap fun m =>
    match pairMatch sourceIndex targetIndex scheduled m with
    | .paired pair => some (m, pair)
    | _ => none

theorem map_snd_pairsOf (matched : List FunctionMatch) (sourceIndex targetIndex : EntityIndex) (scheduled : List ℤ) :
    (pairsOf matched sourceIndex targetIndex scheduled).map Prod.snd =
      (pairMatches matched sourceIndex targetIndex scheduled).1 := by
  unfold pairsOf pairMatches
  rw [List.map_filterMap]
  congr 1
  funext m
  cases pairMatch sourceIndex targetIndex scheduled m <;> rfl

/-- The matches with the offsets that were looked up. -/
def withTargets (targets : Targets) (matched : List FunctionMatch) : List FunctionMatch :=
  withTargetOffsets (fun fid => (targets.find? fid).map Prod.fst) matched

/-- The functions that a completed visit looked up, and its pairs. -/
inductive Paired (rt : Runtime) (v : EdgeVisit) : Targets → List (FunctionMatch × MatchPair) → Prop where
  | idle (htrace : v.trace = [])
      (h : v.toNode.scheduledEntities = [] ∨ v.fromNode.view = none ∨ v.toNode.view = none) : Paired rt v .empty []
  | visited {fromView toView : ViewId} {setup : VisitSetup} {payload : Json} {matched : List FunctionMatch}
      {targets : Targets} {listed : List (ℤ × Option EntityInfo)} {targetIndex : EntityIndex}
      {tr₁ tr₂ tr₃ tr₄ tr₅ tr₆ tr₇ : List (Event VisitI)} {verdict : Bool}
      (hfrom : v.fromNode.view = some fromView) (hto : v.toNode.view = some toView)
      (htrace : v.trace =
        tr₁ ++ (tr₂ ++ (tr₃ ++ (tr₄ ++ (tr₅ ++ ([⟨.entities v.toNode.id, listed⟩] ++ (tr₆ ++ tr₇)))))))
      (hsetup : Exec (visitSetup rt v.fuel fromView toView v.config) tr₁ (.returned setup))
      (hpayload : Exec (matchPayload rt v.fuel setup.client setup.config v.toNode setup.fromSample setup.toSample) tr₂
        (.returned payload))
      (hprogress : Exec (advance (88 / 100)) tr₃ (.returned ()))
      (hparse : parseVsResult payload (visitFilter setup.config setup.fromSample) = .ok matched)
      (hlookup : Exec (lookupTargets rt setup.client setup.config.server (uniqueTargetFunctionIds matched)) tr₄
        (.returned targets))
      (hprogress' : Exec (advance (9 / 10)) tr₅ (.returned ()))
      (hentities : Exec (targetEntities v.fromNode fromView setup.fromReport (withTargets targets matched)) tr₆
        (.returned targetIndex))
      (hemit : Exec (emitMatches v.fromNode v.toNode (withTargets targets matched) targets
        (indexEntities (functionEntities listed)) targetIndex) tr₇ (.returned verdict)) :
      Paired rt v targets (pairsOf (withTargets targets matched) (indexEntities (functionEntities listed)) targetIndex
        v.toNode.scheduledEntities)

section Paired

variable {rt : Runtime} {v : EdgeVisit}

/-- Every visit that returns has its pairs. -/
theorem exists_paired {b : Bool} (h : Exec (visitEdge rt v.fuel v.fromNode v.toNode v.config) v.trace (.returned b)) :
    ∃ targets pairs, Paired rt v targets pairs := by
  unfold visitEdge at h
  split_ifs at h with hscheduled
  · exact ⟨_, _, .idle (Exec.ret_returned h).1 (Or.inl hscheduled)⟩
  · cases hfrom : v.fromNode.view with
    | none =>
      rw [hfrom] at h
      exact ⟨_, _, .idle (Exec.ret_returned h).1 (Or.inr (Or.inl hfrom))⟩
    | some fromView =>
      cases hto : v.toNode.view with
      | none =>
        rw [hfrom, hto] at h
        exact ⟨_, _, .idle (Exec.ret_returned h).1 (Or.inr (Or.inr hto))⟩
      | some toView =>
        rw [hfrom, hto] at h
        obtain ⟨setup, tr₁, _, htrace₁, hsetup, h₁⟩ := Exec.bind_returned h
        obtain ⟨payload, tr₂, _, rfl, hpayload, h₂⟩ := Exec.bind_returned h₁
        obtain ⟨_, tr₃, _, rfl, hprogress, h₃⟩ := Exec.bind_returned h₂
        obtain ⟨matched, tr', _, rfl, hparse, h₄⟩ := Exec.bind_returned h₃
        obtain ⟨rfl, hmatched⟩ := Exec.ofExcept_returned hparse
        obtain ⟨targets, tr₄, _, rfl, hlookup, h₅⟩ := Exec.bind_returned h₄
        obtain ⟨_, tr₅, _, rfl, hprogress', h₆⟩ := Exec.bind_returned h₅
        obtain ⟨listed, tr'', _, rfl, hlisted, h₇⟩ := Exec.bind_returned h₆
        obtain rfl := Exec.op_returned hlisted
        obtain ⟨targetIndex, tr₆, tr₇, rfl, hentities, hemit⟩ := Exec.bind_returned h₇
        exact ⟨_, _, .visited hfrom hto htrace₁ hsetup hpayload hprogress hmatched hlookup hprogress' hentities hemit⟩

end Paired

/-! ## Labels that are written -/

theorem written_append (tr₁ tr₂ : List (Event VisitI)) : written (tr₁ ++ tr₂) = written tr₁ ++ written tr₂ :=
  List.flatMap_append

theorem written_eq_nil_of {tr : List (Event VisitI)} (h : ∀ e ∈ tr, ¬ VisitOp.IsEmitted e.1) : written tr = [] := by
  refine List.flatMap_eq_nil_iff.2 fun e he => ?_
  have hnot := h e he
  obtain ⟨o, a⟩ := e
  cases o with
  | updateLabels => exact absurd trivial hnot
  | _ => rfl

/-- A part that emits nothing writes no label. -/
theorem written_eq_nil {α : Type} {p : VisitProg α} {tr : List (Event VisitI)} {out : Outcome PyError α}
    (h : p.OnlyCalls fun o => ¬ VisitOp.IsEmitted o) (hex : Exec p tr out) : written tr = [] :=
  written_eq_nil_of fun e he => h.exec hex e he

theorem VisitOp.IsCached.not_isEmitted {o : VisitOp} (h : o.IsCached) : ¬ o.IsEmitted := by
  intro hemitted
  cases o <;> first | exact h | exact hemitted

theorem permits_notEmitted (rt : Runtime) (fuel : ℕ) (config : ProviderConfig) :
    Permits rt fuel config fun o => ¬ VisitOp.IsEmitted o where
  plain := fun _ _ ho _ => ho
  claims := fun _ ho _ => ho.not_isEmitted
  ensure := fun client report start stop opts => by
    refine (onlyCalls_true _).lift fun o _ => ?_
    cases o <;> exact id

theorem written_emitPairs {fromNode toNode : SessionNode} {pairs : List MatchPair} {tr : List (Event VisitI)} {n : ℕ}
    (h : Exec (emitPairs fromNode toNode pairs) tr (.returned n)) : written tr = [] := by
  induction pairs generalizing tr n with
  | nil =>
    obtain ⟨rfl, -⟩ := Exec.ret_returned h
    rfl
  | cons pair pairs ih =>
    obtain ⟨resultId, emitted, tr', rfl, hrest⟩ := emitPairs_returned h
    show written tr' = []
    exact ih hrest

theorem written_emitMatches {fromNode toNode : SessionNode} {matched : List FunctionMatch} {targets : Targets}
    {sourceIndex targetIndex : EntityIndex} {tr : List (Event VisitI)} {b : Bool}
    (h : Exec (emitMatches fromNode toNode matched targets sourceIndex targetIndex) tr (.returned b)) :
    written tr =
      pairLabels fromNode targets (pairMatches matched sourceIndex targetIndex toNode.scheduledEntities).1 := by
  obtain ⟨_, emitted, tr₁, tr₂, rfl, rfl, hpairs, hrest⟩ := emitMatches_returned h
  show pairLabels _ _ _ ++ written (tr₁ ++ tr₂) = _
  rw [written_append, written_emitPairs hpairs, written_eq_nil_of hrest, List.append_nil, List.append_nil]

section Facts

variable {rt : Runtime} {v : EdgeVisit} {targets : Targets} {pairs : List (FunctionMatch × MatchPair)}

/-- A visit writes the labels of its pairs. -/
theorem Paired.written_eq (h : Paired rt v targets pairs) :
    written v.trace = pairLabels v.fromNode targets (pairs.map Prod.snd) := by
  cases h with
  | idle htrace => rw [htrace]; rfl
  | @visited fromView toView setup payload matched _ _ _ _ _ _ _ _ _ _ _ hfrom hto htrace hsetup hpayload hprogress
      hparse hlookup hprogress' hentities hemit =>
    have hpermits := permits_notEmitted rt v.fuel setup.config
    have hambient := hpermits.plain.ambient
    rw [htrace, written_append, written_append, written_append, written_append, written_append, written_append,
      written_append,
      written_eq_nil (visitSetup_onlyCalls _ _ hpermits.plain fun config' _ => permits_notEmitted rt _ config') hsetup,
      written_eq_nil (matchPayload_onlyCalls hpermits _ _ _ _) hpayload,
      written_eq_nil (advance_onlyCalls hambient _) hprogress,
      written_eq_nil (lookupTargets_onlyCalls hpermits.plain (fun _ ho => ho.not_isEmitted) _ _ _) hlookup,
      written_eq_nil (advance_onlyCalls hambient _) hprogress',
      written_eq_nil (targetEntities_onlyCalls hambient _ _ _ _) hentities, written_emitMatches hemit, map_snd_pairsOf]
    rfl

/-- What is known of a function was read under its key. -/
theorem knownOffsets_reads {server : String} {fids : List ℤ} {known : Targets} {tr : List (Event VisitI)}
    (h : Exec (knownOffsets server fids known) tr (.returned targets)) {fid : ℤ} {found : ℤ × String}
    (hfound : targets.find? fid = some found) :
    known.find? fid = some found ∨ ⟨.getOffset (server, fid), some found⟩ ∈ tr := by
  induction fids generalizing known tr with
  | nil =>
    obtain ⟨-, rfl⟩ := Exec.ret_returned h
    exact Or.inl hfound
  | cons id fids ih =>
    obtain ⟨read, tr₁, tr₂, rfl, hread, hrest⟩ := Exec.bind_returned h
    obtain rfl := Exec.op_returned hread
    rcases ih hrest with hknown | hmem
    · cases read with
      | none => exact Or.inl hknown
      | some value =>
        rw [OrderedMap.find?_put] at hknown
        split_ifs at hknown with hid
        · subst hid
          cases hknown
          exact Or.inr (List.mem_append_left _ (List.mem_singleton_self _))
        · exact Or.inl hknown
    · exact Or.inr (List.mem_append_right _ hmem)

theorem lookupTargets_reads {client : McritClient} {server : String} {fids : List ℤ} {tr : List (Event VisitI)}
    (h : Exec (lookupTargets rt client server fids) tr (.returned targets)) {fid : ℤ} {found : ℤ × String}
    (hfound : targets.find? fid = some found) : ⟨.getOffset (server, fid), some found⟩ ∈ tr := by
  obtain ⟨missing, tr₁, _, rfl, -, h₁⟩ := Exec.bind_returned h
  obtain ⟨_, tr₂, tr₃, rfl, -, hknown⟩ := Exec.bind_returned h₁
  rcases knownOffsets_reads hknown hfound with hempty | hmem
  · cases hempty
  · exact List.mem_append_right _ (List.mem_append_right _ hmem)

/-- The functions that were looked up were read from the cache. -/
theorem Paired.reads (h : Paired rt v targets pairs) {fid : ℤ} {found : ℤ × String}
    (hfound : targets.find? fid = some found) : ∃ server, ⟨.getOffset (server, fid), some found⟩ ∈ v.trace := by
  cases h with
  | idle => cases hfound
  | visited _ _ htrace _ _ _ _ hlookup =>
    have hmem := lookupTargets_reads hlookup hfound
    rw [htrace]
    exact ⟨_, List.mem_append_right _ (List.mem_append_right _ (List.mem_append_right _ (List.mem_append_left _ hmem)))⟩

/-- The entries a visit stores are those it has fetched. -/
theorem setOffsets_stores {server : String} {entries : List (ℤ × ℤ × String)} {tr : List (Event VisitI)}
    {out : Outcome PyError Unit} (h : Exec (setOffsets server entries) tr out) {key : String × ℤ} {found : ℤ × String}
    {a : Unit} (hmem : (⟨.setOffset key found, a⟩ : Event VisitI) ∈ tr) : (key.2, found) ∈ entries := by
  have honly : (setOffsets server entries).OnlyCalls fun o : VisitOp =>
      ∀ key found, o = .setOffset key found → (key.2, found) ∈ entries := by
    clear h hmem
    induction entries with
    | nil => trivial
    | cons e entries ih =>
      refine .bind (ask_onlyCalls fun key found ho => ?_) fun _ => ih.mono fun o ho key found heq =>
        List.mem_cons_of_mem _ (ho key found heq)
      cases ho
      exact List.mem_cons_self
  exact honly.exec h _ hmem key found rfl

theorem onServer_request_returned {client : McritClient} {start stop : ℚ} {o : ServerOp} {r : o.Result}
    {tr : List (Event VisitI)} (h : Exec (onServer client start stop (request o)) tr (.returned r)) :
    tr = [⟨.server client o, Except.ok r⟩] := by
  have hask : onServer client start stop (request o) =
      (ask (.server client o) >>= fun answer => Prog.ofExcept answer) :=
    congrArg (Prog.call (I := VisitI) (.server client o)) (funext fun answer => by cases answer <;> rfl)
  rw [hask] at h
  obtain ⟨answer, tr₁, tr₂, rfl, hanswer, hrest⟩ := Exec.bind_returned h
  obtain rfl := Exec.op_returned hanswer
  obtain ⟨rfl, rfl⟩ := Exec.ofExcept_returned hrest
  rfl

theorem lookupTargets_stores {client : McritClient} {server : String} {fids : List ℤ} {tr : List (Event VisitI)}
    (h : Exec (lookupTargets rt client server fids) tr (.returned targets)) {key : String × ℤ} {found : ℤ × String}
    {a : Unit} (hmem : (⟨.setOffset key found, a⟩ : Event VisitI) ∈ tr) : ∃ functionIds entries,
      (⟨.server client (.getFunctionsByIds functionIds), .ok entries⟩ : Event VisitI) ∈ tr ∧
        (key.2, found) ∈ targetFunctions rt entries := by
  have hreads : ∀ {P : VisitOp → Prop}, (∀ key, P (.getOffset key)) →
      (missingOffsets server fids).OnlyCalls P ∧ ∀ known, (knownOffsets server fids known).OnlyCalls P := by
    intro P hP
    clear h
    induction fids with
    | nil => exact ⟨trivial, fun _ => trivial⟩
    | cons fid fids ih =>
      exact ⟨.bind (ask_onlyCalls (hP _)) fun _ => .bind ih.1 fun _ => trivial,
        fun known => .bind (ask_onlyCalls (hP _)) fun _ => ih.2 _⟩
  obtain ⟨hfirst, hlast⟩ := hreads (P := fun o => ¬ o.StoresOffset) fun _ => id
  obtain ⟨missing, tr₁, _, rfl, hmissing, h₁⟩ := Exec.bind_returned h
  obtain ⟨_, tr₂, tr₃, rfl, hfetch, hknown⟩ := Exec.bind_returned h₁
  rcases List.mem_append.1 hmem with hmem | hmem
  · exact absurd trivial (hfirst.exec hmissing _ hmem)
  rcases List.mem_append.1 hmem with hmem | hmem
  · unfold fetchOffsets at hfetch
    split_ifs at hfetch with hnone
    · rw [(Exec.ret_returned hfetch).1] at hmem
      cases hmem
    · obtain ⟨entries, tr₄, tr₅, rfl, hasked, hset⟩ := Exec.bind_returned hfetch
      obtain rfl := onServer_request_returned hasked
      rcases List.mem_append.1 hmem with hmem | hmem
      · cases List.mem_singleton.1 hmem
      · exact ⟨missing, entries, by simp, setOffsets_stores hset hmem⟩
  · exact absurd trivial ((hlast _).exec hknown _ hmem)

theorem not_storesOffset_of_not_isCached {o : VisitOp} (h : ¬ o.IsCached) : ¬ o.StoresOffset := by
  intro hstores
  cases o <;> first | exact h trivial | exact hstores

theorem permits_notStored (rt : Runtime) (fuel : ℕ) (config : ProviderConfig) :
    Permits rt fuel config fun o => ¬ VisitOp.StoresOffset o where
  plain := fun _ _ _ ho => not_storesOffset_of_not_isCached ho
  claims := fun _ _ ho => ho
  ensure := fun client report start stop opts => by
    refine (onlyCalls_true _).lift fun o _ => ?_
    cases o <;> exact id

/-- An entry that the visit has stored carries the label of the server. -/
theorem Paired.carried_of_stored (h : Paired rt v targets pairs) (hfetched : v.Fetched rt) {key : String × ℤ}
    {found : ℤ × String} {a : Unit} (hmem : (⟨.setOffset key found, a⟩ : Event VisitI) ∈ v.trace) :
    found.2 = v.carried key.2 := by
  cases h with
  | idle htrace =>
    rw [htrace] at hmem
    cases hmem
  | @visited fromView toView setup payload matched _ listed targetIndex tr₁ tr₂ tr₃ tr₄ tr₅ tr₆ tr₇ verdict hfrom hto
      htrace hsetup hpayload hprogress hparse hlookup hprogress' hentities hemit =>
    have hpermits := permits_notStored rt v.fuel setup.config
    have hambient := hpermits.plain.ambient
    have hnot : ∀ {α : Type} {p : VisitProg α} {tr : List (Event VisitI)} {out : Outcome PyError α},
        p.OnlyCalls (fun o => ¬ VisitOp.StoresOffset o) → Exec p tr out →
          (⟨.setOffset key found, a⟩ : Event VisitI) ∉ tr := fun hp hexec he => hp.exec hexec _ he trivial
    have hlooked : (⟨.setOffset key found, a⟩ : Event VisitI) ∈ tr₄ := by
      have hentity : (⟨.setOffset key found, a⟩ : Event VisitI) ≠ ⟨.entities v.toNode.id, listed⟩ :=
        fun heq => by cases heq
      rw [htrace] at hmem
      simpa [hentity,
        hnot (visitSetup_onlyCalls _ _ hpermits.plain fun config' _ => permits_notStored rt _ config') hsetup,
        hnot (matchPayload_onlyCalls hpermits _ _ _ _) hpayload, hnot (advance_onlyCalls hambient _) hprogress,
        hnot (advance_onlyCalls hambient _) hprogress', hnot (targetEntities_onlyCalls hambient _ _ _ _) hentities,
        hnot (emitMatches_onlyCalls (fun _ _ ho => not_storesOffset_of_not_isCached ho) _ _ _ _ _ _) hemit] using hmem
    obtain ⟨functionIds, entries, hanswer, hentry⟩ := lookupTargets_stores hlookup hlooked
    refine hfetched setup.client functionIds entries ?_ _ hentry
    rw [htrace]
    exact List.mem_append_right _ (List.mem_append_right _ (List.mem_append_right _ (List.mem_append_left _ hanswer)))

theorem acceptRow_targetOffset {filter : MatchFilter} {head : SummaryHead} {raw : Json} {m : FunctionMatch}
    (h : acceptRow filter head raw = some m) : m.targetOffset = none := by
  cases raw with
  | list row =>
    simp only [acceptRow] at h
    split_ifs at h
    split at h
    · split_ifs at h
      cases h
      rfl
    · cases h
  | _ => cases h

/-- A payload names no target offset. -/
theorem parseVsResult_targetOffset {payload : Json} {filter : MatchFilter} {matched : List FunctionMatch}
    (h : parseVsResult payload filter = .ok matched) {m : FunctionMatch} (hm : m ∈ matched) :
    m.targetOffset = none := by
  obtain ⟨-, ms, hms, rfl⟩ := parseVsResult_eq_ok_iff.1 h
  rw [selectMatches, values_groups, List.flatMap_map] at hm
  obtain ⟨o, -, hm⟩ := List.mem_flatMap.1 hm
  obtain ⟨m', hm', count, stats, rfl⟩ := mem_selectGroup hm
  obtain ⟨head, raw, hraw⟩ := acceptedMatches_passes hms (List.mem_filter.1 hm').1
  have hoffset := acceptRow_targetOffset hraw
  exact hoffset

/-- A paired function was looked up, at the offset of its pair. -/
theorem Paired.find?_targets (h : Paired rt v targets pairs) {e : FunctionMatch × MatchPair} (he : e ∈ pairs) :
    ∃ text, targets.find? e.1.targetFunctionId = some (e.2.targetOffset, text) := by
  cases h with
  | idle => cases he
  | visited _ _ _ _ _ _ hparse =>
    obtain ⟨m, hm, hpair⟩ := List.mem_filterMap.1 he
    obtain ⟨parsed, hparsed, rfl⟩ := List.mem_map.1 hm
    split at hpair
    · next pair hmatch =>
      cases hpair
      obtain ⟨offset, source, target, hoffset, hsource, htarget, hmem⟩ := exists_of_pairMatch hmatch
      have heq := pairMatch_eq hoffset hsource htarget hmem
      rw [hmatch] at heq
      cases heq
      rw [parseVsResult_targetOffset hparse hparsed, Option.or_none] at hoffset
      obtain ⟨⟨_, text⟩, hfound, rfl⟩ := Option.map_eq_some_iff.1 hoffset
      exact ⟨text, hfound⟩
    · cases hpair

end Facts

/-! ## Labels by offset -/

theorem corpusLabels_eq (targets : Targets) :
    corpusLabels targets = OrderedMap.empty.update (targets.values.filter fun found => found.2 ≠ "") := by
  unfold corpusLabels OrderedMap.update
  rw [List.foldl_filter]
  congr 1
  funext labels found
  by_cases h : found.2 = "" <;> simp [h]

theorem mem_values_iff {targets : Targets} {found : ℤ × String} :
    found ∈ targets.values ↔ ∃ fid, targets.find? fid = some found := by
  unfold OrderedMap.values
  rw [List.mem_map]
  constructor
  · rintro ⟨⟨fid, found⟩, hmem, rfl⟩
    exact ⟨fid, OrderedMap.find?_eq_some_iff.2 hmem⟩
  · rintro ⟨fid, hfound⟩
    exact ⟨(fid, found), OrderedMap.find?_eq_some_iff.1 hfound, rfl⟩

/-- An offset at which the functions with a label agree on it. -/
theorem find?_corpusLabels {targets : Targets} {offset : ℤ} {text : String}
    (hagree : ∀ fid found, targets.find? fid = some found → found.1 = offset → found.2 = "" ∨ found.2 = text)
    (hlooked : ∃ fid, targets.find? fid = some (offset, text)) :
    (corpusLabels targets).find? offset = if text = "" then none else some text := by
  rw [corpusLabels_eq]
  have hlabel : ∀ found ∈ targets.values.filter fun found => found.2 ≠ "", found.1 = offset → found.2 = text := by
    intro found hmem hoffset
    obtain ⟨hvalue, hne⟩ := List.mem_filter.1 hmem
    obtain ⟨fid, hfound⟩ := mem_values_iff.1 hvalue
    exact (hagree fid found hfound hoffset).resolve_left (by simpa using hne)
  split_ifs with htext
  · refine (OrderedMap.find?_update_of_notMem fun found hmem hoffset => ?_).trans rfl
    have hne := (List.mem_filter.1 hmem).2
    rw [hlabel found hmem hoffset, htext] at hne
    cases hne
  · obtain ⟨fid, hfound⟩ := hlooked
    refine OrderedMap.find?_update_of_mem ⟨(offset, text), List.mem_filter.2 ⟨?_, ?_⟩, rfl⟩ hlabel
    · exact mem_values_iff.2 ⟨fid, hfound⟩
    · simpa using htext

/-! ## Visits that keep the labels exact -/

/-- The entries that the visit reads and has not stored are those of the server, the functions that have labels agree
on them where they share an offset or an entity, and no label of an earlier visit is lost. -/
structure KeepsLabels (s : Labels) (v : EdgeVisit) (pairs : List (FunctionMatch × MatchPair)) : Prop where
  cached : ∀ key found, ⟨.getOffset key, some found⟩ ∈ v.trace → ⟨.setOffset key found, ()⟩ ∉ v.trace →
    found.2 = v.carried key.2
  offsets : ∀ e ∈ pairs, ∀ key found, ⟨.getOffset key, some found⟩ ∈ v.trace → found.1 = e.2.targetOffset →
    v.carried key.2 = "" ∨ v.carried key.2 = v.carried e.1.targetFunctionId
  entities : ∀ e ∈ pairs, ∀ e' ∈ pairs, v.target e.2 = v.target e'.2 →
    v.carried e.1.targetFunctionId = v.carried e'.1.targetFunctionId
  kept : ∀ e ∈ pairs, v.carried e.1.targetFunctionId = "" → label s (v.target e.2) = ""

/-- After a visit, the entities it paired have the labels of the functions they were paired with, and no other
label has changed. -/
structure Follows (s : Labels) (v : EdgeVisit) (t : Labels) (pairs : List (FunctionMatch × MatchPair)) : Prop where
  paired : ∀ e ∈ pairs, label t (v.target e.2) = v.carried e.1.targetFunctionId
  unpaired : ∀ target, (∀ e ∈ pairs, v.target e.2 ≠ target) → label t target = label s target

section Follows

variable {rt : Runtime} {v : EdgeVisit} {s : Labels} {targets : Targets} {pairs : List (FunctionMatch × MatchPair)}

theorem mem_pairLabels {fromNode : SessionNode} {paired : List MatchPair} {entry : (ℤ × ℤ) × String} :
    entry ∈ pairLabels fromNode targets paired ↔ ∃ pair ∈ paired,
      (corpusLabels targets).find? pair.targetOffset = some entry.2 ∧ entry.1 = (fromNode.id, pair.targetEntityId) := by
  unfold pairLabels
  rw [List.mem_filterMap]
  refine exists_congr fun pair => and_congr_right fun _ => ?_
  rw [Option.map_eq_some_iff]
  constructor
  · rintro ⟨text, hfind, rfl⟩
    exact ⟨hfind, rfl⟩
  · rintro ⟨hfind, hkey⟩
    exact ⟨entry.2, hfind, Prod.ext hkey.symm rfl⟩

/-- The entities that were not paired keep their labels, in every visit. -/
theorem Paired.unpaired (h : Paired rt v targets pairs) {target : EntityRef}
    (htarget : ∀ e ∈ pairs, v.target e.2 ≠ target) : label (s.update (written v.trace)) target = label s target := by
  unfold label
  rw [OrderedMap.find?_update_of_notMem]
  intro entry hentry hkey
  rw [h.written_eq] at hentry
  obtain ⟨pair, hpair, -, hentity⟩ := mem_pairLabels.1 hentry
  obtain ⟨e, he, rfl⟩ := List.mem_map.1 hpair
  rw [hkey] at hentity
  obtain ⟨hnode, hid⟩ := Prod.mk.inj hentity
  refine htarget e he ?_
  cases target
  exact congrArg₂ EntityRef.mk hnode.symm hid.symm

theorem KeepsLabels.corpusLabels (hkeeps : KeepsLabels s v pairs) (h : Paired rt v targets pairs)
    (hfetched : v.Fetched rt) {e : FunctionMatch × MatchPair} (he : e ∈ pairs) :
    (corpusLabels targets).find? e.2.targetOffset =
      if v.carried e.1.targetFunctionId = "" then none else some (v.carried e.1.targetFunctionId) := by
  have hcarried : ∀ fid found, targets.find? fid = some found → found.2 = v.carried fid := by
    intro fid found hfound
    obtain ⟨server, hread⟩ := h.reads hfound
    by_cases hstored : (⟨.setOffset (server, fid) found, ()⟩ : Event VisitI) ∈ v.trace
    · exact h.carried_of_stored hfetched hstored
    · exact hkeeps.cached _ _ hread hstored
  refine find?_corpusLabels (fun fid found hfound hoffset => ?_) ?_
  · obtain ⟨server, hread⟩ := h.reads hfound
    rw [hcarried fid found hfound]
    exact hkeeps.offsets e he _ _ hread hoffset
  · obtain ⟨text, hfound⟩ := h.find?_targets he
    have htext : text = v.carried e.1.targetFunctionId := hcarried _ _ hfound
    exact ⟨_, htext ▸ hfound⟩

/-- Under `KeepsLabels` a visit leaves the labels exact. -/
theorem KeepsLabels.follows (hkeeps : KeepsLabels s v pairs) (h : Paired rt v targets pairs)
    (hfetched : v.Fetched rt) : Follows s v (s.update (written v.trace)) pairs where
  paired := by
    intro e he
    -- Every entry that is written for this entity has the label of its function.
    have hentry : ∀ entry ∈ written v.trace, entry.1 = (v.fromNode.id, e.2.targetEntityId) →
        entry.2 = v.carried e.1.targetFunctionId ∧ v.carried e.1.targetFunctionId ≠ "" := by
      intro entry hmem hkey
      rw [h.written_eq] at hmem
      obtain ⟨pair, hpair, hfind, hentity⟩ := mem_pairLabels.1 hmem
      obtain ⟨e', he', rfl⟩ := List.mem_map.1 hpair
      rw [hkeeps.corpusLabels h hfetched he'] at hfind
      have hsame : v.target e.2 = v.target e'.2 :=
        congrArg (EntityRef.mk v.fromNode.id) (Prod.mk.inj (hkey.symm.trans hentity)).2
      rw [hkeeps.entities e he e' he' hsame]
      split_ifs at hfind with hnone
      exact ⟨(Option.some.inj hfind).symm, hnone⟩
    by_cases hnone : v.carried e.1.targetFunctionId = ""
    · have hunchanged : label (s.update (written v.trace)) (v.target e.2) = label s (v.target e.2) := by
        unfold label
        rw [OrderedMap.find?_update_of_notMem]
        exact fun entry hmem hkey => (hentry entry hmem hkey).2 hnone
      rw [hunchanged, hkeeps.kept e he hnone, hnone]
    · have hmem : ((v.fromNode.id, e.2.targetEntityId), v.carried e.1.targetFunctionId) ∈ written v.trace := by
        rw [h.written_eq]
        refine mem_pairLabels.2 ⟨e.2, List.mem_map_of_mem he, ?_, rfl⟩
        rw [hkeeps.corpusLabels h hfetched he, if_neg hnone]
      have hfind : (s.update (written v.trace)).find? (v.fromNode.id, e.2.targetEntityId) =
          some (v.carried e.1.targetFunctionId) :=
        OrderedMap.find?_update_of_mem ⟨_, hmem, rfl⟩ fun entry hmem hkey => (hentry entry hmem hkey).1
      exact congrArg (fun found => Option.getD found "") hfind
  unpaired := fun target htarget => h.unpaired htarget

end Follows

/-- In every run of visits, the labels follow each visit that returns. -/
def LabelsFollow (rt : Runtime) (step : Labels → EdgeVisit → Labels → Prop) : Prop :=
  ∀ run s v t, Steps step .empty run s → step s v t → ∀ b, v.out = .returned b →
    (∃ targets pairs, Paired rt v targets pairs) ∧ ∀ targets pairs, Paired rt v targets pairs → Follows s v t pairs

/-- The labels follow the last visit in every run whose visits keep them exact. -/
theorem labelsFollow (rt : Runtime) : LabelsFollow rt
    (restrict (visitStep rt) fun s v => ∀ targets pairs, Paired rt v targets pairs → KeepsLabels s v pairs) := by
  rintro run s v t - ⟨hkeeps, hvisit, hfetched, rfl⟩ b hb
  rw [hb] at hvisit
  exact ⟨exists_paired hvisit, fun targets pairs h => (hkeeps targets pairs h).follows h hfetched⟩

/-! ## A label that is lost -/

/-- One function has one row. -/
def labelSummaries : List Summary := [⟨0x1000, 1, 0, [⟨0, 9, 5, .finite 90, 1⟩]⟩]

def labelMatch : FunctionMatch where
  sourceOffset := 0x1000
  targetOffset := none
  sourceFunctionId := 1
  targetFunctionId := 5
  targetSampleId := 9
  targetFamilyId := 0
  score := 90
  flags := 1
  numBytes := .finite 0
  bestScore := some 90

def labelTo : SessionNode := ⟨3, some 1, [10], [some 0, some 0]⟩

/-- The answers of a visit that pairs one function, which has this label. -/
def labelAnswer (text : String) : (o : VisitOp) → o.Ans
  | .claimCorpus _ => .hit (payloadOf labelSummaries)
  | .getOffset _ => some (0x2001, text)
  | .entities nodeId => if nodeId = 3 then [(10, some ⟨true, 0x1000, "f"⟩)] else []
  | o => exampleAnswer o

def labelEnv (text : String) : (o : VisitI.Op) → VisitI.Ans o := labelAnswer text

def labelConfig (server : String) : ProviderConfig := { server := server, queryPerNode := true }

def labelVisit (rt : Runtime) (server text : String) : EdgeVisit where
  fuel := 0
  fromNode := exampleFrom
  toNode := labelTo
  config := labelConfig server
  trace := (visitEdge rt 0 exampleFrom labelTo (labelConfig server)).trace (labelEnv text)
  out := .returned true
  carried := fun _ => text

theorem parseVsResult_labelSummaries (server : String) :
    parseVsResult (payloadOf labelSummaries) (visitFilter (labelConfig server) ⟨9, "aa", true⟩) = .ok [labelMatch] := by
  have hfilter : visitFilter (labelConfig server) ⟨9, "aa", true⟩ = visitFilter (labelConfig "") ⟨9, "aa", true⟩ := rfl
  rw [hfilter]
  decide +kernel

def labelTargets (text : String) : Targets := OrderedMap.empty.put 5 (0x2001, text)

/-- The target entities of the visit; it creates the only one. -/
def labelIndex : EntityIndex := OrderedMap.empty.put 0x2001 ⟨42, 0x2001, reportedName emptyReport 0x2001⟩

def labelPairs (text : String) : List (FunctionMatch × MatchPair) :=
  pairsOf (withTargets (labelTargets text) [labelMatch]) (indexEntities [⟨10, 0x1000, "f"⟩]) labelIndex [10]

section Example

variable (rt : Runtime) {server : String} (text : String)

/-- The visit returns, with its pair. -/
theorem exec_labelVisit {client : McritClient} (hbuiltin : isBuiltin (labelConfig server).server = false)
    (hclient : clientFor (labelConfig server) = .ok client) :
    Exec (visitEdge rt 0 exampleFrom labelTo (labelConfig server)) (labelVisit rt server text).trace
      (.returned true) ∧ Paired rt (labelVisit rt server text) (labelTargets text) (labelPairs text) := by
  have hsetup : (visitSetup rt 0 0 1 (labelConfig server)).outcome (labelEnv text) =
      .returned ⟨labelConfig server, client, emptyReport, ⟨9, "aa", true⟩, ⟨9, "aa", true⟩⟩ := by
    unfold visitSetup
    simp only [resolve_remote hbuiltin, pure_eq_ret, ret_bind, hclient, Prog.ofExcept]
    rfl
  have hmatch : (matchPayload rt 0 client (labelConfig server) labelTo ⟨9, "aa", true⟩ ⟨9, "aa", true⟩).outcome
      (labelEnv text) = .returned (payloadOf labelSummaries) := rfl
  have hadvance : ∀ progress, (advance progress).outcome (labelEnv text) = .returned () := fun _ => rfl
  have hlookup : (lookupTargets rt client (labelConfig server).server (uniqueTargetFunctionIds [labelMatch])).outcome
      (labelEnv text) = .returned (labelTargets text) := rfl
  have hlisted : (ask (.entities 3)).outcome (labelEnv text) = .returned [(10, some ⟨true, 0x1000, "f"⟩)] := rfl
  have hentities : (targetEntities exampleFrom 0 emptyReport (withTargets (labelTargets text) [labelMatch])).outcome
      (labelEnv text) = .returned labelIndex := rfl
  have hemit : (emitMatches exampleFrom labelTo (withTargets (labelTargets text) [labelMatch]) (labelTargets text)
      (indexEntities [⟨10, 0x1000, "f"⟩]) labelIndex).outcome (labelEnv text) = .returned true := rfl
  have hpayload : visitPayload rt exampleFrom labelTo 0 (labelConfig server) client emptyReport ⟨9, "aa", true⟩
      (payloadOf labelSummaries) = (do
        let targets ← lookupTargets rt client (labelConfig server).server (uniqueTargetFunctionIds [labelMatch])
        advance (9 / 10)
        let listed ← ask (.entities 3)
        let targetIndex ← targetEntities exampleFrom 0 emptyReport (withTargets targets [labelMatch])
        emitMatches exampleFrom labelTo (withTargets targets [labelMatch]) targets
          (indexEntities (functionEntities listed)) targetIndex) := by
    have hparse : parseVsResult (payloadOf labelSummaries) (visitFilter (labelConfig server) ⟨9, "aa", true⟩) =
      .ok [labelMatch] := parseVsResult_labelSummaries server
    unfold visitPayload
    rw [hparse]
    rfl
  have htrace : (labelVisit rt server text).trace =
      (visitViews rt 0 exampleFrom labelTo 0 1 (labelConfig server)).trace (labelEnv text) := rfl
  have hvisit : visitEdge rt 0 exampleFrom labelTo (labelConfig server) =
      visitViews rt 0 exampleFrom labelTo 0 1 (labelConfig server) := rfl
  constructor
  · refine exec_of_outcome (labelEnv text) ?_
    rw [hvisit, visitViews, outcome_bind _ hsetup, outcome_bind _ hmatch, outcome_bind _ (hadvance _), hpayload,
      outcome_bind _ hlookup, outcome_bind _ (hadvance _), outcome_bind _ hlisted, outcome_bind _ hentities]
    exact hemit
  · rw [visitViews, trace_bind _ hsetup, trace_bind _ hmatch, trace_bind _ (hadvance _), hpayload,
      trace_bind _ hlookup, trace_bind _ (hadvance _), trace_bind _ hlisted, trace_bind _ hentities] at htrace
    exact .visited rfl rfl htrace (exec_of_outcome _ hsetup) (exec_of_outcome _ hmatch)
      (exec_of_outcome _ (hadvance _)) (parseVsResult_labelSummaries server) (exec_of_outcome _ hlookup)
      (exec_of_outcome _ (hadvance _)) (exec_of_outcome _ hentities) (exec_of_outcome _ hemit)

theorem fetched_labelVisit : (labelVisit rt server text).Fetched rt := by
  intro client functionIds entries hmem
  cases eq_of_mem_trace (labelEnv text) hmem

theorem visitStep_labelVisit {client : McritClient} (hbuiltin : isBuiltin (labelConfig server).server = false)
    (hclient : clientFor (labelConfig server) = .ok client) (s : Labels) : visitStep rt s (labelVisit rt server text)
      (s.update (pairLabels exampleFrom (labelTargets text) ((labelPairs text).map Prod.snd))) := by
  have hvisit := exec_labelVisit rt text hbuiltin hclient
  refine ⟨hvisit.1, fetched_labelVisit rt text, ?_⟩
  rw [hvisit.2.written_eq]
  rfl

/-- A visit whose functions all have this label meets the condition. -/
theorem keepsLabels_labelVisit (htext : text ≠ "") (s : Labels) (pairs : List (FunctionMatch × MatchPair)) :
    KeepsLabels s (labelVisit rt server text) pairs where
  cached := fun key found hread _ => by
    have hfound : some found = some (0x2001, text) := eq_of_mem_trace (labelEnv text) hread
    rw [Option.some.inj hfound]
    rfl
  offsets := fun _ _ _ _ _ _ => Or.inr rfl
  entities := fun _ _ _ _ _ => rfl
  kept := fun _ _ hnone => absurd hnone htext

end Example

def labelRuntime : Runtime := ⟨fun _ => none, fun _ => ""⟩

/-- The steps of visits that keep the labels exact. -/
def keepingStep : Labels → EdgeVisit → Labels → Prop :=
  restrict (visitStep labelRuntime) fun s v => ∀ targets pairs, Paired labelRuntime v targets pairs →
    KeepsLabels s v pairs

/-- The labels after a visit whose function has this label. -/
def relabelled (s : Labels) (text : String) : Labels :=
  s.update (pairLabels exampleFrom (labelTargets text) ((labelPairs text).map Prod.snd))

/-- An entity that is paired again, with a function of another server, takes over the label of that one. -/
theorem labelsFollow_relabelled :
    Steps keepingStep .empty [labelVisit labelRuntime remoteServer "CryptEncrypt",
        labelVisit labelRuntime "https://mcrit.test/" "RsaEncrypt"]
      (relabelled (relabelled .empty "CryptEncrypt") "RsaEncrypt") ∧
        label (relabelled .empty "CryptEncrypt") ⟨7, 42⟩ = "CryptEncrypt" ∧
          label (relabelled (relabelled .empty "CryptEncrypt") "RsaEncrypt") ⟨7, 42⟩ = "RsaEncrypt" := by
  obtain ⟨client, hclient⟩ : ∃ client, clientFor (labelConfig remoteServer) = .ok client := clientFor_remoteServer rfl
  obtain ⟨client', hclient'⟩ : ∃ client, clientFor (labelConfig "https://mcrit.test/") = .ok client := ⟨_, rfl⟩
  have hbuiltin : isBuiltin (labelConfig "https://mcrit.test/").server = false := by decide
  have hfirst : keepingStep .empty (labelVisit labelRuntime remoteServer "CryptEncrypt")
      (relabelled .empty "CryptEncrypt") :=
    ⟨fun _ pairs _ => keepsLabels_labelVisit _ _ (by decide) _ pairs,
      visitStep_labelVisit labelRuntime "CryptEncrypt" (by decide) hclient _⟩
  have hsecond : keepingStep (relabelled .empty "CryptEncrypt")
      (labelVisit labelRuntime "https://mcrit.test/" "RsaEncrypt")
      (relabelled (relabelled .empty "CryptEncrypt") "RsaEncrypt") :=
    ⟨fun _ pairs _ => keepsLabels_labelVisit _ _ (by decide) _ pairs,
      visitStep_labelVisit labelRuntime "RsaEncrypt" hbuiltin hclient' _⟩
  have hpaired := exec_labelVisit labelRuntime "CryptEncrypt" (by decide) hclient
  have hpaired' := exec_labelVisit labelRuntime "RsaEncrypt" hbuiltin hclient'
  refine ⟨.cons hfirst (.single hsecond), ?_, ?_⟩
  · have hfollows := (labelsFollow labelRuntime [] _ _ _ (.refl _) hfirst true rfl).2 _ _ hpaired.2
    exact hfollows.paired _ List.mem_cons_self
  · have hfollows := (labelsFollow labelRuntime _ _ _ _ (.single hfirst) hsecond true rfl).2 _ _ hpaired'.2
    exact hfollows.paired _ List.mem_cons_self

/-- A function without a label keeps the label of the one that its entity was paired with on another server. -/
theorem not_labelsFollow : ¬ LabelsFollow labelRuntime (visitStep labelRuntime) := by
  intro h
  obtain ⟨client, hclient⟩ : ∃ client, clientFor (labelConfig remoteServer) = .ok client := clientFor_remoteServer rfl
  obtain ⟨client', hclient'⟩ : ∃ client, clientFor (labelConfig "https://mcrit.test/") = .ok client := ⟨_, rfl⟩
  have hbuiltin : isBuiltin (labelConfig "https://mcrit.test/").server = false := by decide
  have hfollows := (h _ _ _ _ (.single (visitStep_labelVisit _ "CryptEncrypt" (by decide) hclient .empty))
    (visitStep_labelVisit _ "" hbuiltin hclient' _) true rfl).2 _ _ (exec_labelVisit _ "" hbuiltin hclient').2
  have hlabel : label (relabelled (relabelled .empty "CryptEncrypt") "") ⟨7, 42⟩ = "CryptEncrypt" := by decide +kernel
  have hempty : label (relabelled (relabelled .empty "CryptEncrypt") "") ⟨7, 42⟩ = "" :=
    hfollows.paired _ List.mem_cons_self
  rw [hempty] at hlabel
  exact absurd hlabel (by decide)

end McritSimilarity

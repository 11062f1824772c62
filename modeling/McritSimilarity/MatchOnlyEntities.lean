import McritSimilarity.Lib.Exclusive
import McritSimilarity.VisitCalls

/-!
# Entities of matched functions

Concurrent visits into one node create entities for matched functions that the node does not list, each
under the entity lock of the node.  A created entity is indexed under its address alone: after an odd
(Thumb) address, the even address of the same function is not found, and gets an entity of its own
(`not_noTwinEntities`).  `noTwinEntities` is the property for the visits whose matches create no entity at
an odd address.
-/

set_option autoImplicit false

namespace McritSimilarity

open Python Prog

/-! ## The node -/

/-- An entity of the node, and whether a visit created it. -/
structure NodeEntity where
  entityId : ℤ
  info : Option EntityInfo
  created : Bool

/-- The entities of the node. -/
abbrev TargetNode := List NodeEntity

namespace TargetNode

def listed (s : TargetNode) : List (ℤ × Option EntityInfo) := s.map fun e => (e.entityId, e.info)

/-- The functions among the entities, as `_entities` collects them. -/
def functions (s : TargetNode) : List Entity := functionEntities s.listed

end TargetNode

/-- The address of an entity that is a function. -/
def NodeEntity.address? (e : NodeEntity) : Option ℤ :=
  e.info.bind fun info => if info.isFunction then some info.address else none

/-- No two entities, of which a visit created at least one, are the same function. -/
def NoTwins (s : TargetNode) : Prop :=
  s.Pairwise fun e e' => e.created = true ∨ e'.created = true →
    ∀ a ∈ e.address?, ∀ a' ∈ e'.address?, ¬ sameUpToBit0 a a'

/-- The index finds an entity for exactly the addresses for which that of the node's entities would. -/
def Covers (index : EntityIndex) (s : TargetNode) : Prop :=
  ∀ address, (lookupEntity index address).isSome = (lookupEntity (indexEntities s.functions) address).isSome

variable {functionAt : ℤ → Bool}

/-- What the node and its view answer; any id may be handed out for a new entity. -/
def nodeSem (functionAt : ℤ → Bool) (s : TargetNode) : (o : VisitOp) → o.Ans → TargetNode → Prop
  | .entities _, a, s' => a = s.listed ∧ s' = s
  | .functionAt _ address, a, s' => a = functionAt address ∧ s' = s
  | .createEntity _ address name, a, s' => s' = s ++ [⟨a, some ⟨true, address, name⟩, true⟩]
  | _, _, _ => False

/-! ## Visits -/

/-- The block under the lock. -/
def entityBlock (node : SessionNode) (view : ViewId) (report : SmdaReport) (matched : List FunctionMatch) :
    VisitProg EntityIndex := do
  let listed ← ask (.entities node.id)
  addMatchOnlyEntities node view report matched (indexEntities (functionEntities listed))

/-! ## One block -/

/-- An entity of the node is the function at an address. -/
def Lists (s : TargetNode) (address : ℤ) : Prop := ∃ e ∈ s, ∃ a ∈ e.address?, sameUpToBit0 a address

/-- The view has a function at an address or at the address without its Thumb bit. -/
def HasFunction (functionAt : ℤ → Bool) (address : ℤ) : Prop :=
  functionAt address = true ∨ functionAt (clearBit0 address) = true

/-- Every match at an odd address is one of a listed function or of no function of the view, or comes
behind a match at the even address of its function. -/
def EvenFirst (functionAt : ℤ → Bool) (s : TargetNode) (matched : List FunctionMatch) : Prop :=
  ∀ before m after offset, matched = before ++ m :: after → m.targetOffset = some offset →
    clearBit0 offset ≠ offset → Lists s offset ∨ ¬ HasFunction functionAt offset ∨
      ∃ m' ∈ before, m'.targetOffset = some (clearBit0 offset) ∧ functionAt (clearBit0 offset) = true

theorem exists_functions_iff {s : TargetNode} {address : ℤ} :
    (∃ e ∈ s.functions, sameUpToBit0 e.address address) ↔ Lists s address := by
  simp only [TargetNode.functions, TargetNode.listed, functionEntities, List.mem_filterMap, List.mem_map,
    Lists, NodeEntity.address?]
  constructor
  · rintro ⟨entity, ⟨-, ⟨e, he, rfl⟩, hentity⟩, hsame⟩
    refine ⟨e, he, entity.address, ?_, hsame⟩
    cases hinfo : e.info with
    | none => simp [hinfo] at hentity
    | some info =>
      simp only [hinfo] at hentity
      split_ifs at hentity with hfunction
      cases hentity
      simp [hfunction]
  · rintro ⟨e, he, a, ha, hsame⟩
    cases hinfo : e.info with
    | none => simp [hinfo] at ha
    | some info =>
      simp only [hinfo, Option.bind_some, Option.mem_def] at ha
      split_ifs at ha with hfunction
      cases ha
      exact ⟨⟨e.entityId, info.address, info.name⟩, ⟨_, ⟨e, he, rfl⟩, by simp [hinfo, hfunction]⟩, hsame⟩

theorem covers_iff {index : EntityIndex} {s : TargetNode} :
    Covers index s ↔ ∀ address, (lookupEntity index address).isSome = true ↔ Lists s address := by
  refine forall_congr' fun address => ?_
  rw [Bool.eq_iff_iff, lookupEntity_indexEntities, isSome_firstEntity_iff, exists_functions_iff]

theorem lists_append {s : TargetNode} {e : NodeEntity} {address : ℤ} :
    Lists (s ++ [e]) address ↔ Lists s address ∨ ∃ a ∈ e.address?, sameUpToBit0 a address := by
  simp only [Lists, List.mem_append, List.mem_singleton, or_and_right, exists_or, exists_eq_left]

/-- An entity under an even address is found under all addresses of its function. -/
theorem isSome_lookupEntity_put {index : EntityIndex} {offset : ℤ} {entity : Entity}
    (heven : clearBit0 offset = offset) (address : ℤ) :
    (lookupEntity (index.put offset entity) address).isSome = true ↔
      (lookupEntity index address).isSome = true ∨ sameUpToBit0 offset address := by
  have hsame : sameUpToBit0 offset address ↔ offset = address ∨ offset = clearBit0 address := by
    unfold sameUpToBit0
    rw [heven]
    refine ⟨Or.inr, fun h => ?_⟩
    rcases h with rfl | h
    · exact heven.symm
    · exact h
  rw [lookupEntity_eq, lookupEntity_eq, OrderedMap.find?_put, OrderedMap.find?_put, hsame]
  by_cases ha : address = offset
  · simp [ha]
  · by_cases hc : clearBit0 address = offset
    · simp [hc]
    · simp [ha, hc, Ne.symm ha, Ne.symm hc]

theorem ask_runsTo {o : VisitOp} {s s' : TargetNode} {out : Outcome PyError o.Ans}
    (h : RunsTo (I := VisitI) (nodeSem functionAt) (ask o) s out s') :
    ∃ a, out = .returned a ∧ nodeSem functionAt s o a s' := by
  cases h with
  | call hsem h =>
    cases h
    exact ⟨_, rfl, hsem⟩

theorem viewHasFunction_runsTo {view : ViewId} {offset : ℤ} {s s' : TargetNode} {out : Outcome PyError Bool}
    (h : RunsTo (I := VisitI) (nodeSem functionAt) (viewHasFunction view offset) s out s') :
    ∃ found, out = .returned found ∧ (found = true ↔ HasFunction functionAt offset) ∧ s' = s := by
  obtain ⟨e, hop, -⟩ | ⟨first, t, hop, hrest⟩ := h.bind_cases
  · obtain ⟨a, ha, -⟩ := ask_runsTo hop
    cases ha
  · obtain ⟨a, ha, rfl, rfl⟩ := ask_runsTo hop
    cases ha
    cases hfirst : functionAt offset with
    | true =>
      rw [hfirst] at hrest
      cases hrest
      exact ⟨true, rfl, by simp [HasFunction, hfirst], rfl⟩
    | false =>
      rw [hfirst] at hrest
      obtain ⟨a, rfl, rfl, rfl⟩ := ask_runsTo hrest
      exact ⟨_, rfl, by simp [HasFunction, hfirst], rfl⟩

/-- A round for a match whose function is not listed. -/
theorem addEntity_runsTo {node : SessionNode} {view : ViewId} {report : SmdaReport} {offset : ℤ}
    {index : EntityIndex} {s s' : TargetNode} {out : Outcome PyError EntityIndex}
    (h : RunsTo (I := VisitI) (nodeSem functionAt) (addEntity node view report offset index) s out s') :
    (¬ HasFunction functionAt offset ∧ out = .returned index ∧ s' = s) ∨
      HasFunction functionAt offset ∧ ∃ id name, out = .returned (index.put offset ⟨id, offset, name⟩) ∧
        s' = s ++ [⟨id, some ⟨true, offset, name⟩, true⟩] := by
  obtain ⟨e, hfound, -⟩ | ⟨found, t, hfound, hrest⟩ := h.bind_cases
  · obtain ⟨found, hreturned, -⟩ := viewHasFunction_runsTo hfound
    cases hreturned
  · obtain ⟨found', hreturned, hiff, rfl⟩ := viewHasFunction_runsTo hfound
    cases hreturned
    cases found with
    | false =>
      cases hrest
      exact Or.inl ⟨fun hfunction => absurd (hiff.2 hfunction) nofun, rfl, rfl⟩
    | true =>
      obtain ⟨e, hop, -⟩ | ⟨id, t, hop, hrest⟩ := RunsTo.bind_cases (p := ask (.createEntity _ _ _)) hrest
      · obtain ⟨a, ha, -⟩ := ask_runsTo hop
        cases ha
      · obtain ⟨a, ha, rfl⟩ := ask_runsTo hop
        cases ha
        cases hrest
        exact Or.inr ⟨hiff.1 rfl, _, _, rfl, rfl⟩

/-- The node and the index in the middle of a block, with the matches that are left. -/
structure BlockInv (functionAt : ℤ → Bool) (s : TargetNode) (index : EntityIndex)
    (matched : List FunctionMatch) : Prop where
  covers : Covers index s
  noTwins : NoTwins s
  evenFirst : EvenFirst functionAt s matched

/-- Later matches may rely on what a round has left. -/
theorem EvenFirst.tail {s s' : TargetNode} {m : FunctionMatch} {matched : List FunctionMatch}
    (h : EvenFirst functionAt s (m :: matched)) (hgrows : ∀ address, Lists s address → Lists s' address)
    (hhead : ∀ offset, m.targetOffset = some offset → functionAt offset = true → Lists s' offset) :
    EvenFirst functionAt s' matched := by
  intro before m' after offset hmatched hoffset hodd
  rcases h (m :: before) m' after offset (by rw [hmatched]; rfl) hoffset hodd with
    hlists | hnone | ⟨m'', hm'', heven, hfunction⟩
  · exact Or.inl (hgrows offset hlists)
  · exact Or.inr (Or.inl hnone)
  · rcases List.mem_cons.1 hm'' with rfl | hm''
    · obtain ⟨e, he, a, ha, hsame⟩ := hhead _ heven hfunction
      exact Or.inl ⟨e, he, a, ha, hsame.trans (clearBit0_idem offset)⟩
    · exact Or.inr (Or.inr ⟨m'', hm'', heven, hfunction⟩)

theorem noTwins_append {s : TargetNode} {e : NodeEntity} (h : NoTwins s)
    (hnew : ∀ a ∈ e.address?, ¬ Lists s a) : NoTwins (s ++ [e]) := by
  refine List.pairwise_append.2 ⟨h, List.pairwise_singleton _ _, fun e' he' e'' he'' _ a ha a' ha' hsame => ?_⟩
  rw [List.mem_singleton] at he''
  subst he''
  exact hnew a' ha' ⟨e', he', a, ha, hsame⟩

/-- A block keeps its invariant to the end. -/
theorem addMatchOnlyEntities_runsTo {node : SessionNode} {view : ViewId} {report : SmdaReport}
    {matched : List FunctionMatch} {index : EntityIndex} {s s' : TargetNode}
    {out : Outcome PyError EntityIndex} (hs : BlockInv functionAt s index matched)
    (h : RunsTo (I := VisitI) (nodeSem functionAt) (addMatchOnlyEntities node view report matched index)
      s out s') : ∃ index', out = .returned index' ∧ BlockInv functionAt s' index' [] := by
  induction matched generalizing index s with
  | nil =>
    cases h
    exact ⟨index, rfl, hs⟩
  | cons m matched ih =>
    unfold addMatchOnlyEntities at h
    cases hoffset : m.targetOffset with
    | none =>
      rw [hoffset] at h
      refine ih ⟨hs.covers, hs.noTwins, hs.evenFirst.tail (fun _ => id) fun offset hm => ?_⟩ h
      rw [hoffset] at hm
      cases hm
    | some offset =>
      simp only [hoffset] at h
      split_ifs at h with hfound
      · have hlists := (covers_iff.1 hs.covers offset).1 hfound
        refine ih ⟨hs.covers, hs.noTwins, hs.evenFirst.tail (fun _ => id) fun offset' hm _ => ?_⟩ h
        rw [hoffset, Option.some.injEq] at hm
        rwa [← hm]
      · have hnew : ¬ Lists s offset := fun hlists => hfound ((covers_iff.1 hs.covers offset).2 hlists)
        obtain ⟨e, hround, rfl⟩ | ⟨index', t, hround, hrest⟩ := h.bind_cases
        · rcases addEntity_runsTo hround with ⟨-, hout, -⟩ | ⟨-, id, name, hout, -⟩ <;> cases hout
        · rcases addEntity_runsTo hround with ⟨hnone, hout, rfl⟩ | ⟨hfunction, id, name, hout, rfl⟩
          · cases hout
            refine ih ⟨hs.covers, hs.noTwins, hs.evenFirst.tail (fun _ => id) fun offset' hm hat => ?_⟩ hrest
            rw [hoffset, Option.some.injEq] at hm
            exact absurd (Or.inl (hm ▸ hat)) hnone
          · cases hout
            -- The first match of an unlisted function is at its even address.
            have heven : clearBit0 offset = offset := by
              by_contra hodd
              rcases hs.evenFirst [] m matched offset rfl hoffset hodd with hlists | hnone | ⟨m', hm', -⟩
              · exact hnew hlists
              · exact hnone hfunction
              · cases hm'
            have haddress : (⟨id, some ⟨true, offset, name⟩, true⟩ : NodeEntity).address? = some offset := rfl
            refine ih ⟨covers_iff.2 fun address => ?_, noTwins_append hs.noTwins ?_,
              hs.evenFirst.tail (fun address hlists => ?_) fun offset' hm _ => ?_⟩ hrest
            · rw [isSome_lookupEntity_put heven, covers_iff.1 hs.covers, lists_append, haddress]
              simp
            · intro a ha
              rw [haddress, Option.mem_some_iff] at ha
              rwa [← ha]
            · exact lists_append.2 (Or.inl hlists)
            · rw [hoffset, Option.some.injEq] at hm
              refine lists_append.2 (Or.inr ⟨offset, rfl, ?_⟩)
              rw [← hm]
              rfl

theorem entityBlock_runsTo {node : SessionNode} {view : ViewId} {report : SmdaReport}
    {matched : List FunctionMatch} {s s' : TargetNode} {out : Outcome PyError EntityIndex}
    (hs : NoTwins s) (hmatched : EvenFirst functionAt s matched)
    (h : RunsTo (I := VisitI) (nodeSem functionAt) (entityBlock node view report matched) s out s') :
    ∃ index, out = .returned index ∧ NoTwins s' ∧ Covers index s' := by
  obtain ⟨e, hop, -⟩ | ⟨listed, t, hop, hrest⟩ := h.bind_cases
  · obtain ⟨a, ha, -⟩ := ask_runsTo hop
    cases ha
  · obtain ⟨a, ha, rfl, rfl⟩ := ask_runsTo hop
    cases ha
    obtain ⟨index, rfl, hinv⟩ := addMatchOnlyEntities_runsTo ⟨fun _ => rfl, hs, hmatched⟩ hrest
    exact ⟨index, rfl, hinv.noTwins, hinv.covers⟩

/-! ## Concurrent visits -/

/-- A visit that shares the target node: the report and the matches it brings. -/
structure EntityVisit where
  report : SmdaReport
  matched : List FunctionMatch

section Visits

variable {τ : Type} [DecidableEq τ] (functionAt : ℤ → Bool) (node : SessionNode) (view : ViewId)
  (visits : τ → EntityVisit)

abbrev EntityPool (τ : Type) := Pool τ VisitI PyError EntityIndex (Bool × TargetNode)

/-- A step of a visit. -/
def entityStep : EntityPool τ → τ × Event VisitI → EntityPool τ → Prop :=
  guardedStep (I := VisitI) (.lockEntities node.id) (.unlockEntities node.id) (nodeSem functionAt)

/-- No visit has taken the lock yet. -/
def entityPool (s : TargetNode) : EntityPool τ :=
  ⟨(false, s), fun t => some (targetEntities node view (visits t).report (visits t).matched)⟩

/-- Whenever the lock is free, no created entity has a twin; and a visit that releases the lock has an
index that covers the node. -/
def NoTwinEntities (step : EntityPool τ → τ × Event VisitI → EntityPool τ → Prop) : Prop :=
  ∀ (s : TargetNode) tr p, (∀ e ∈ s, e.created = false) → Steps step (entityPool node view visits s) tr p →
    (p.shared.1 = false → NoTwins p.shared.2) ∧
      ∀ t q index, step p (t, ⟨.unlockEntities node.id, ()⟩) q → q.threads t = some (.ret index) →
        Covers index q.shared.2

/-- A visit takes the lock in a state in which its matches create no entity at an odd address. -/
def TakesEvenFirst (p : EntityPool τ) (l : τ × Event VisitI) : Prop :=
  l.2.1 = .lockEntities node.id → EvenFirst functionAt p.shared.2 (visits l.1).matched

variable {functionAt node view visits}

variable (functionAt node view visits) in
omit [DecidableEq τ] in
theorem guardedBlocks_entities : GuardedBlocks (I := VisitI) (.lockEntities node.id) (.unlockEntities node.id)
    (nodeSem functionAt) (fun t => entityBlock node view (visits t).report (visits t).matched) NoTwins
    fun t s => EvenFirst functionAt s (visits t).matched where
  distinct := nofun
  calls t := .bind (ask_onlyCalls ⟨nofun, nofun⟩) fun _ =>
    addMatchOnlyEntities_onlyCalls (fun _ _ => ⟨nofun, nofun⟩) (fun _ _ _ => ⟨nofun, nofun⟩) _ _ _ _ _
  good t s out u hgood hmatched hrun := by
    obtain ⟨index, -, hnoTwins, -⟩ := entityBlock_runsTo hgood hmatched hrun
    exact hnoTwins

/-- Visits whose matches create no entity at an odd address create no twins. -/
theorem noTwinEntities : NoTwinEntities node view visits
    (restrict (entityStep functionAt node) (TakesEvenFirst functionAt node visits)) := by
  intro s tr p hcreated hrun
  have hblocks := guardedBlocks_entities functionAt node view visits
  have hs : NoTwins s := by
    refine List.pairwise_iff_forall_sublist.2 fun {e e'} hsub htwin => ?_
    have he := hcreated e (hsub.subset (List.mem_cons_self ..))
    have he' := hcreated e' (hsub.subset (List.mem_cons_of_mem _ (List.mem_cons_self ..)))
    rw [he, he'] at htwin
    simp at htwin
  have hp : ∃ owner, Exclusive _ _ _ _ _ _ owner p := hrun.invariant
    (P := fun p => ∃ owner, Exclusive (I := VisitI) (.lockEntities node.id) (.unlockEntities node.id)
      (nodeSem functionAt) (fun t => entityBlock node view (visits t).report (visits t).matched) NoTwins
      (fun t s => EvenFirst functionAt s (visits t).matched) owner p)
    (fun _ _ _ hp hstep => Exclusive.step hblocks hp hstep.1 hstep.2)
    ⟨none, exclusive_guardedPool hs⟩
  refine ⟨fun hfree => ?_, fun t q index hstep hq => ?_⟩
  · obtain ⟨owner, hp⟩ := hp
    rw [hp.held, Option.isSome_eq_false_iff, Option.isNone_iff_eq_none] at hfree
    exact hp.free hfree
  · obtain ⟨hshared, start, hgood, hmatched, hblock⟩ := Exclusive.release hblocks hp hstep.2 hq
    obtain ⟨index', hreturned, -, hcovers⟩ := entityBlock_runsTo hgood hmatched hblock
    cases hreturned
    rw [hshared]
    exact hcovers

end Visits

/-! ## Visits that match Thumb functions -/

def thumbMatch (offset : ℤ) : FunctionMatch where
  sourceOffset := 0
  targetOffset := some offset
  sourceFunctionId := 0
  targetFunctionId := 0
  targetSampleId := 0
  targetFamilyId := 0
  score := 100
  flags := 0
  numBytes := .finite 64

def thumbNode : SessionNode := ⟨7, some 0, [], []⟩

/-- The view has functions at 0x1000 and 0x2000. -/
def sharedFunctionAt (address : ℤ) : Bool := address = 0x1000 ∨ address = 0x2000

/-- The node lists the second function. -/
def sharedNode : TargetNode := [⟨20, some ⟨true, 0x2000, "sub_2000"⟩, false⟩]

/-- Both visits match the first function, at its odd address behind the even one or after the other visit. -/
def sharedVisits : Bool → EntityVisit
  | true => ⟨emptyReport, [thumbMatch 0x1000, thumbMatch 0x1001]⟩
  | false => ⟨emptyReport, [thumbMatch 0x2001, thumbMatch 0x1001, thumbMatch 0x3000]⟩

/-- The first visit has created an entity. -/
def grownNode : TargetNode := sharedNode ++ [⟨41, some ⟨true, 0x1000, "sub_1000"⟩, true⟩]

def sharedTrace : List (Bool × Event VisitI) :=
  [(true, ⟨.lockEntities 7, ()⟩), (true, ⟨.entities 7, sharedNode.listed⟩), (true, ⟨.functionAt 0 0x1000, true⟩),
    (true, ⟨.createEntity 7 0x1000 "sub_1000", (41 : ℤ)⟩), (true, ⟨.unlockEntities 7, ()⟩),
    (false, ⟨.lockEntities 7, ()⟩), (false, ⟨.entities 7, grownNode.listed⟩), (false, ⟨.functionAt 0 0x3000, false⟩),
    (false, ⟨.functionAt 0 0x3000, false⟩), (false, ⟨.unlockEntities 7, ()⟩)]

theorem evenFirst_true : EvenFirst sharedFunctionAt sharedNode (sharedVisits true).matched := by
  rintro (- | ⟨m₁, - | ⟨m₂, before⟩⟩) m after offset hmatched hoffset hodd
  · cases hmatched
    cases hoffset
    exact absurd rfl hodd
  · cases hmatched
    cases hoffset
    exact Or.inr (Or.inr ⟨_, List.mem_singleton_self _, rfl, rfl⟩)
  · simp [sharedVisits] at hmatched

theorem evenFirst_false : EvenFirst sharedFunctionAt grownNode (sharedVisits false).matched := by
  have hlists : ∀ offset, offset = 0x2001 ∨ offset = 0x1001 → Lists grownNode offset := by
    rintro offset (rfl | rfl)
    · exact ⟨_, List.mem_cons_self, 0x2000, rfl, by decide⟩
    · exact ⟨_, List.mem_cons_of_mem _ List.mem_cons_self, 0x1000, rfl, by decide⟩
  rintro (- | ⟨m₁, - | ⟨m₂, - | ⟨m₃, before⟩⟩⟩) m after offset hmatched hoffset hodd
  · cases hmatched
    cases hoffset
    exact Or.inl (hlists _ (Or.inl rfl))
  · cases hmatched
    cases hoffset
    exact Or.inl (hlists _ (Or.inr rfl))
  · cases hmatched
    cases hoffset
    exact absurd rfl hodd
  · simp [sharedVisits] at hmatched

theorem run_sharedVisits : ∃ p, Steps
    (restrict (entityStep sharedFunctionAt thumbNode) (TakesEvenFirst sharedFunctionAt thumbNode sharedVisits))
    (entityPool thumbNode 0 sharedVisits sharedNode) sharedTrace p ∧ p.shared = (false, grownNode) := by
  exact ⟨_, .cons ⟨fun _ => evenFirst_true, Pool.opStep_call rfl (.acquire _ _)⟩
    (.cons ⟨nofun, Pool.opStep_call rfl (.other true nofun nofun ⟨rfl, rfl⟩)⟩
    (.cons ⟨nofun, Pool.opStep_call rfl (.other true nofun nofun ⟨rfl, rfl⟩)⟩
    (.cons ⟨nofun, Pool.opStep_call rfl (.other true nofun nofun rfl)⟩
    (.cons ⟨nofun, Pool.opStep_call rfl (.release true _ _)⟩
    (.cons ⟨fun _ => evenFirst_false, Pool.opStep_call rfl (.acquire _ _)⟩
    (.cons ⟨nofun, Pool.opStep_call rfl (.other true nofun nofun ⟨rfl, rfl⟩)⟩
    (.cons ⟨nofun, Pool.opStep_call rfl (.other true nofun nofun ⟨rfl, rfl⟩)⟩
    (.cons ⟨nofun, Pool.opStep_call rfl (.other true nofun nofun ⟨rfl, rfl⟩)⟩
    (.cons ⟨nofun, Pool.opStep_call rfl (.release true _ _)⟩ (.refl _)))))))))), rfl⟩

/-- The second visit finds the entity that the first one created, and the one that was listed. -/
theorem noTwinEntities_sharedVisits : NoTwins grownNode ∧ ∃ p, Steps
    (restrict (entityStep sharedFunctionAt thumbNode) (TakesEvenFirst sharedFunctionAt thumbNode sharedVisits))
      (entityPool thumbNode 0 sharedVisits sharedNode) sharedTrace p ∧ p.shared = (false, grownNode) := by
  obtain ⟨p, hrun, hp⟩ := run_sharedVisits
  have hlisted : ∀ e ∈ sharedNode, e.created = false := fun e he => by
    rw [List.mem_singleton.1 he]
  have htwins := (noTwinEntities sharedNode sharedTrace p hlisted hrun).1 (by rw [hp])
  rw [hp] at htwins
  exact ⟨htwins, p, hrun, hp⟩

/-! ## A Thumb function that is matched at its odd address first -/

/-- One visit with a match at each address of the function at 0x1000. -/
def thumbVisits (_ : ℕ) : EntityVisit := ⟨emptyReport, [thumbMatch 0x1001, thumbMatch 0x1000]⟩

/-- The view has a function at 0x1000 alone. -/
def thumbFunctionAt (address : ℤ) : Bool := address = 0x1000

def thumbTwins : TargetNode :=
  [⟨1, some ⟨true, 0x1001, "sub_1001"⟩, true⟩, ⟨2, some ⟨true, 0x1000, "sub_1000"⟩, true⟩]

def thumbIndex : EntityIndex :=
  ((OrderedMap.empty.put 0x1001 ⟨1, 0x1001, "sub_1001"⟩).put 0x1000 ⟨2, 0x1000, "sub_1000"⟩)

/-- The visit creates an entity at 0x1001 and one at 0x1000. -/
theorem thumbVisit_runsTo : RunsTo (I := VisitI)
    (LockSem (I := VisitI) (.lockEntities 7) (.unlockEntities 7) (nodeSem thumbFunctionAt))
    (targetEntities thumbNode 0 emptyReport [thumbMatch 0x1001, thumbMatch 0x1000]) (false, [])
    (.returned thumbIndex) (false, thumbTwins) := by
  refine .call (.acquire [] ()) ?_
  refine .call (.other true nofun nofun ⟨rfl, rfl⟩) ?_
  refine .call (.other true nofun nofun ⟨rfl, rfl⟩) ?_
  refine .call (.other true nofun nofun ⟨rfl, rfl⟩) ?_
  refine .call (a := (1 : ℤ)) (.other true nofun nofun rfl) ?_
  refine .call (.other true nofun nofun ⟨rfl, rfl⟩) ?_
  refine .call (a := (2 : ℤ)) (.other true nofun nofun rfl) ?_
  refine .call (.release true thumbTwins ()) ?_
  exact .ret thumbIndex _

theorem not_noTwinEntities : ¬ NoTwinEntities thumbNode 0 thumbVisits (entityStep thumbFunctionAt thumbNode) := by
  intro h
  obtain ⟨tr, q, hrun, hq, -⟩ := thumbVisit_runsTo.steps (entityPool thumbNode 0 thumbVisits [] : EntityPool ℕ)
    (0 : ℕ) rfl rfl
  have htwins := (h [] tr q nofun hrun).1 (by rw [hq])
  rw [hq] at htwins
  have hpair := List.rel_of_pairwise_cons htwins (List.mem_singleton_self _)
  exact hpair (Or.inl rfl) 0x1001 rfl 0x1000 rfl (by decide)

end McritSimilarity

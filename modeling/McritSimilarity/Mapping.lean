import McritSimilarity.Parse
import McritSimilarity.Smda

/-!
# Mapping matches onto entities

Entities are indexed by their address and, for an odd (Thumb) address, by the address without bit 0;
the first entity of an alias wins.  `pairMatches` looks both offsets of a match up and keeps the pairs
whose source is scheduled.
-/

set_option autoImplicit false

namespace McritSimilarity

open Python

structure Entity where
  entityId : ℤ
  address : ℤ
  name : String
  deriving DecidableEq, Repr

structure MatchPair where
  sourceEntityId : ℤ
  targetEntityId : ℤ
  similarity : ℤ
  confidence : ℤ
  sourceOffset : ℤ
  targetOffset : ℤ
  score : ℚ
  flags : ℤ
  deriving DecidableEq, Repr

/-- `_aliases`. -/
def aliases (address : ℤ) : List ℤ :=
  if clearBit0 address ≠ address then [address, clearBit0 address] else [address]

abbrev EntityIndex := OrderedMap ℤ Entity

/-- `indexed.setdefault(alias, entity)`. -/
def setDefault (index : EntityIndex) (e : Entity) (key : ℤ) : EntityIndex :=
  if index.contains key then index else index.put key e

/-- The aliases of one entity. -/
def indexEntity (index : EntityIndex) (e : Entity) : EntityIndex :=
  (aliases e.address).foldl (fun index key => setDefault index e key) index

def indexEntities (entities : List Entity) : EntityIndex := entities.foldl indexEntity .empty

def lookupEntity (index : EntityIndex) (address : ℤ) : Option Entity :=
  (aliases address).findSome? index.find?

/-- The pair of a match whose entities are known. -/
def matchPair (m : FunctionMatch) (targetOffset : ℤ) (source target : Entity) : MatchPair where
  sourceEntityId := source.entityId
  targetEntityId := target.entityId
  similarity := if m.isPichash then 255 else similarityFromMinhash m.score
  confidence := confidenceFromMatch m.score m.flags m.numBytes m.margin m.pichashCandidates
  sourceOffset := m.sourceOffset
  targetOffset := targetOffset
  score := m.score
  flags := m.flags

/-- What `pair_matches` makes of one match. -/
inductive Pairing where
  | paired (pair : MatchPair)
  | unresolved
  | unscheduled
  deriving DecidableEq, Repr

def pairMatch (sourceIndex targetIndex : EntityIndex) (scheduled : List ℤ) (m : FunctionMatch) :
    Pairing :=
  match m.targetOffset with
  | none => .unresolved
  | some targetOffset =>
    match lookupEntity sourceIndex m.sourceOffset, lookupEntity targetIndex targetOffset with
    | some source, some target =>
      if source.entityId ∈ scheduled then .paired (matchPair m targetOffset source target)
      else .unscheduled
    | _, _ => .unresolved

/-- The pairs of a list of matches; the unresolved matches are only logged. -/
def pairMatches (matched : List FunctionMatch) (sourceIndex targetIndex : EntityIndex)
    (scheduled : List ℤ) : List MatchPair × List FunctionMatch :=
  (matched.filterMap fun m =>
      match pairMatch sourceIndex targetIndex scheduled m with
      | .paired pair => some pair
      | _ => none,
    matched.filter fun m => pairMatch sourceIndex targetIndex scheduled m = .unresolved)

/-! ## Lookups -/

/-- Two addresses that are equal up to bit 0. -/
def sameUpToBit0 (a b : ℤ) : Prop := clearBit0 a = clearBit0 b

instance (a b : ℤ) : Decidable (sameUpToBit0 a b) := inferInstanceAs (Decidable (_ = _))

theorem clearBit0_idem (a : ℤ) : clearBit0 (clearBit0 a) = clearBit0 a := by
  unfold clearBit0
  omega

theorem mem_aliases {a key : ℤ} : key ∈ aliases a ↔ key = a ∨ key = clearBit0 a := by
  unfold aliases
  split_ifs with h
  · simp
  · rw [not_not] at h
    simp [h]

theorem sameUpToBit0_of_mem_aliases {a key : ℤ} (h : key ∈ aliases a) : sameUpToBit0 key a := by
  rcases mem_aliases.1 h with rfl | rfl
  · rfl
  · exact clearBit0_idem a

theorem find?_setDefault (index : EntityIndex) (e : Entity) (key k : ℤ) :
    (setDefault index e key).find? k =
      if k = key then (index.find? key).or (some e) else index.find? k := by
  unfold setDefault OrderedMap.contains
  by_cases hmem : key ∈ index.keys
  · obtain ⟨v, hv⟩ := OrderedMap.mem_keys_iff.1 hmem
    by_cases hk : k = key <;> simp [hmem, hk, hv]
  · have hnone : index.find? key = none := OrderedMap.find?_eq_none_iff.2 hmem
    simp only [hmem, decide_false, Bool.false_eq_true, if_false, OrderedMap.find?_put, hnone,
      Option.none_or]

theorem find?_indexEntity (index : EntityIndex) (e : Entity) (k : ℤ) :
    (indexEntity index e).find? k =
      if k ∈ aliases e.address then (index.find? k).or (some e) else index.find? k := by
  unfold indexEntity aliases
  split_ifs with hodd hmem hmem
  · simp only [List.foldl_cons, List.foldl_nil, find?_setDefault]
    simp only [List.mem_cons, List.not_mem_nil, or_false] at hmem
    rcases hmem with rfl | rfl
    · simp [hodd.symm]
    · simp [hodd]
  · simp only [List.foldl_cons, List.foldl_nil, find?_setDefault]
    simp only [List.mem_cons, List.not_mem_nil, or_false, not_or] at hmem
    rw [if_neg hmem.2, if_neg hmem.1]
  · simp only [List.foldl_cons, List.foldl_nil, find?_setDefault]
    rw [List.mem_singleton] at hmem
    simp [hmem]
  · simp only [List.foldl_cons, List.foldl_nil, find?_setDefault]
    rw [List.mem_singleton] at hmem
    rw [if_neg hmem]

/-- The index holds, under a key, the first entity that has this alias. -/
theorem find?_indexEntities (entities : List Entity) (k : ℤ) :
    (indexEntities entities).find? k = entities.find? fun e => k ∈ aliases e.address := by
  have step : ∀ (entities : List Entity) (index : EntityIndex),
      (entities.foldl indexEntity index).find? k =
        (index.find? k).or (entities.find? fun e => k ∈ aliases e.address) := by
    intro entities
    induction entities with
    | nil => intro index; simp
    | cons e es ih =>
      intro index
      rw [List.foldl_cons, ih, find?_indexEntity, List.find?_cons]
      by_cases h : k ∈ aliases e.address
      · simp only [h, if_true, decide_true]
        cases index.find? k <;> rfl
      · simp only [h, if_false, decide_false]
  rw [indexEntities, step]
  simp

theorem lookupEntity_eq (index : EntityIndex) (a : ℤ) :
    lookupEntity index a = (index.find? a).or (index.find? (clearBit0 a)) := by
  unfold lookupEntity aliases
  split_ifs with hodd
  · rw [List.findSome?_cons, List.findSome?_cons, List.findSome?_nil]
    cases index.find? a <;> cases index.find? (clearBit0 a) <;> rfl
  · rw [not_not] at hodd
    rw [List.findSome?_cons, List.findSome?_nil, hodd]
    cases index.find? a <;> rfl

theorem lookupEntity_eq_none_iff {index : EntityIndex} {a : ℤ} :
    lookupEntity index a = none ↔ ∀ key ∈ aliases a, index.find? key = none := by
  rw [lookupEntity, List.findSome?_eq_none_iff]

/-- The first entity under the first alias of an address that some entity has. -/
def firstEntity (entities : List Entity) (address : ℤ) : Option Entity :=
  (aliases address).findSome? fun key => entities.find? fun e => key ∈ aliases e.address

theorem lookupEntity_indexEntities (entities : List Entity) (a : ℤ) :
    lookupEntity (indexEntities entities) a = firstEntity entities a := by
  have hfind : (indexEntities entities).find? =
      fun key => entities.find? fun e => key ∈ aliases e.address :=
    funext (find?_indexEntities entities)
  rw [lookupEntity, hfind, firstEntity]

theorem exists_mem_aliases_iff {a b : ℤ} :
    (∃ key ∈ aliases a, key ∈ aliases b) ↔ sameUpToBit0 b a := by
  constructor
  · rintro ⟨key, ha, hb⟩
    exact (sameUpToBit0_of_mem_aliases hb).symm.trans (sameUpToBit0_of_mem_aliases ha)
  · intro h
    refine ⟨clearBit0 a, mem_aliases.2 (Or.inr rfl), mem_aliases.2 (Or.inr ?_)⟩
    exact h.symm

/-- An address resolves to an entity when an entity has it, up to bit 0. -/
theorem isSome_firstEntity_iff {entities : List Entity} {a : ℤ} :
    (firstEntity entities a).isSome ↔ ∃ e ∈ entities, sameUpToBit0 e.address a := by
  simp only [firstEntity, List.findSome?_isSome_iff, List.find?_isSome, decide_eq_true_eq]
  constructor
  · rintro ⟨key, hkey, e, he, hmem⟩
    exact ⟨e, he, exists_mem_aliases_iff.1 ⟨key, hkey, hmem⟩⟩
  · rintro ⟨e, he, hsame⟩
    obtain ⟨key, hkey, hmem⟩ := exists_mem_aliases_iff.2 hsame
    exact ⟨key, hkey, e, he, hmem⟩

theorem clearBit0_mem_aliases_iff {a b : ℤ} : clearBit0 a ∈ aliases b ↔ sameUpToBit0 b a := by
  constructor
  · intro h
    exact (sameUpToBit0_of_mem_aliases h).symm.trans (clearBit0_idem a)
  · intro h
    exact mem_aliases.2 (Or.inr h.symm)

/-- No alias of another address is odd. -/
theorem odd_mem_aliases_iff {a b : ℤ} (ha : a % 2 = 1) : a ∈ aliases b ↔ b = a := by
  rw [mem_aliases]
  constructor
  · rintro (h | h)
    · exact h.symm
    · unfold clearBit0 at h
      omega
  · intro h
    exact Or.inl h.symm

/-- The first entity at an address, when that is odd and some entity is there, or else the first one up to bit 0. -/
def nearestEntity (entities : List Entity) (address : ℤ) : Option Entity :=
  if address % 2 = 1 ∧ ∃ e ∈ entities, e.address = address then entities.find? fun e => e.address = address
  else entities.find? fun e => sameUpToBit0 e.address address

theorem lookupEntity_eq_nearestEntity (entities : List Entity) (a : ℤ) :
    lookupEntity (indexEntities entities) a = nearestEntity entities a := by
  have hcleared : (indexEntities entities).find? (clearBit0 a) =
      entities.find? fun e => sameUpToBit0 e.address a := by
    rw [find?_indexEntities]
    simp only [clearBit0_mem_aliases_iff]
  rw [lookupEntity_eq, hcleared, nearestEntity]
  by_cases hodd : a % 2 = 1
  · have hexact : (indexEntities entities).find? a = entities.find? fun e => e.address = a := by
      rw [find?_indexEntities]
      simp only [odd_mem_aliases_iff hodd]
    rw [hexact]
    split_ifs with h
    · obtain ⟨e, he⟩ := Option.isSome_iff_exists.1 (List.find?_isSome.2
        (by simpa using h.2 : ∃ e ∈ entities, decide (e.address = a) = true))
      rw [he, Option.some_or]
    · have hnone : entities.find? (fun e => e.address = a) = none := by
        simpa [hodd] using h
      rw [hnone, Option.none_or]
  · have heven : clearBit0 a = a := by
      unfold clearBit0
      omega
    rw [heven] at hcleared
    rw [if_neg fun h => hodd h.1, hcleared, Option.or_self]

/-- An address resolves exactly when an entity has it up to bit 0, to such an entity: the first one at the address, when
that is odd and some entity is there, or else the first one up to bit 0. -/
theorem lookupEntity_resolves (entities : List Entity) (a : ℤ) :
    ((lookupEntity (indexEntities entities) a).isSome ↔ ∃ e ∈ entities, sameUpToBit0 e.address a) ∧
      (∀ e, lookupEntity (indexEntities entities) a = some e → e ∈ entities ∧ sameUpToBit0 e.address a) ∧
        lookupEntity (indexEntities entities) a = nearestEntity entities a := by
  refine ⟨?_, fun e he => ?_, lookupEntity_eq_nearestEntity entities a⟩
  · rw [lookupEntity_indexEntities]
    exact isSome_firstEntity_iff
  · rw [lookupEntity_eq_nearestEntity] at he
    unfold nearestEntity at he
    split_ifs at he
    · have haddress : e.address = a := by simpa using List.find?_some he
      exact ⟨List.mem_of_find?_eq_some he, congrArg clearBit0 haddress⟩
    · exact ⟨List.mem_of_find?_eq_some he, by simpa using List.find?_some he⟩

example : lookupEntity (indexEntities [⟨2, 0x1001, "odd"⟩, ⟨1, 0x1000, "even"⟩]) 0x1000 = some ⟨2, 0x1001, "odd"⟩ := by
  decide

end McritSimilarity

import McritSimilarity.CandidateStats

/-!
# Encodings of addresses

A server may write a 64-bit address as it is or as its signed form.  `decodeOffset` reads both in function
entries; the offset of a summary is read as it is written, so a match resolves to the entity at its source
address exactly when the summary has the unsigned form (`resolvesAddresses_iff`).
-/

set_option autoImplicit false

namespace McritSimilarity

open Python

/-- An address of 64 bits, as it is or in its signed form. -/
def Encodes (written address : ℤ) : Prop :=
  0 ≤ address ∧ address < 2 ^ 64 ∧ (written = address ∨ written = address - 2 ^ 64)

theorem decodeOffset_of_encodes {value : Json} {written address : ℤ} (hvalue : value.toInt = .ok written)
    (h : Encodes written address) : decodeOffset value = some address := by
  have hdecode : decodeOffset value =
      if written < 0 then some ((written + 2 ^ 64) % 2 ^ 64) else some written := by
    cases value with
    | null => cases hvalue
    | _ => simp only [decodeOffset, hvalue]
  obtain ⟨hnonneg, hlt, rfl | rfl⟩ := h
  · rw [hdecode, if_neg (by omega)]
  · rw [hdecode, if_pos (by omega)]
    congr 1
    omega

/-! ## Offsets by function id -/

theorem lookup_filterMap {κ ν μ : Type} [DecidableEq κ] {entries : List (κ × ν)}
    (hnodup : (entries.map Prod.fst).Nodup) (f : ν → Option μ) (key : κ) :
    (entries.filterMap fun e => (f e.2).map fun found => (e.1, found)).lookup key =
      (entries.lookup key).bind f := by
  induction entries with
  | nil => rfl
  | cons e entries ih =>
    obtain ⟨k, v⟩ := e
    rw [List.map_cons, List.nodup_cons] at hnodup
    have hrest := ih hnodup.2
    by_cases hkey : key = k
    · subst hkey
      have hmissing : entries.lookup key = none := by
        rw [List.lookup_eq_none_iff]
        intro e he
        have hne : key ≠ e.1 := fun h => hnodup.1 (List.mem_map.2 ⟨e, he, h.symm⟩)
        simpa using hne
      rw [hmissing] at hrest
      cases hf : f v with
      | none => simpa [List.filterMap_cons, List.lookup_cons, hf] using hrest
      | some found => simp [hf]
    · have hne : (key == k) = false := beq_false_of_ne hkey
      cases hf : f v with
      | none => simpa [List.filterMap_cons, List.lookup_cons, hf, hne] using hrest
      | some found => simpa [List.filterMap_cons, List.lookup_cons, hf, hne] using hrest

variable (rt : Runtime)

/-- `{fid: offset for fid, (offset, _) in target_functions(entries).items()}.get(fid)`. -/
def targetOffset (entries : OrderedMap ℤ Json) (fid : ℤ) : Option ℤ :=
  ((targetFunctions rt entries).lookup fid).map Prod.fst

theorem targetOffset_eq {entries : OrderedMap ℤ Json} {fid : ℤ} {members : List (String × Json)} {value : Json}
    {written address : ℤ} (hentry : entries.find? fid = some (.dict members))
    (hoffset : members.lookup "offset" = some value) (hvalue : value.toInt = .ok written)
    (h : Encodes written address) : targetOffset rt entries fid = some address := by
  have hlookup := lookup_filterMap entries.nodup (targetFunction rt) fid
  have hfind : entries.entries.lookup fid = some (.dict members) := hentry
  rw [hfind] at hlookup
  have hfunction : targetFunction rt (.dict members) = some (address, corpusLabel rt members) := by
    simp only [targetFunction, hoffset, Option.getD_some, decodeOffset_of_encodes hvalue h, Option.map_some]
  rw [targetOffset, targetFunctions, hlookup, Option.bind_some, hfunction]
  rfl

/-! ## Matches -/

/-- A match of a payload, with its two addresses as the server wrote them and the entities that are
listed there. -/
structure WrittenMatch where
  payload : Json
  summaries : List Summary
  payloadJson : PayloadJson payload summaries
  filter : MatchFilter
  matched : List FunctionMatch
  parsed : parseVsResult payload filter = .ok matched
  /-- The row of the match. -/
  summary : Summary
  summary_mem : summary ∈ summaries
  row : Row
  row_mem : row ∈ summary.rows
  found : FunctionMatch
  found_mem : found ∈ matched
  hit : summary.hit? filter row = some found.hit
  source : ℤ
  encodesSource : Encodes summary.offset source
  /-- The entry of the matched function. -/
  entries : OrderedMap ℤ Json
  members : List (String × Json)
  entry : entries.find? found.targetFunctionId = some (.dict members)
  value : Json
  offset : members.lookup "offset" = some value
  written : ℤ
  value_eq : value.toInt = .ok written
  target : ℤ
  encodesTarget : Encodes written target
  /-- The entities of the two nodes. -/
  sources : List Entity
  targets : List Entity
  unsigned : ∀ e ∈ sources, 0 ≤ e.address
  scheduled : List ℤ
  sourceEntity : Entity
  firstSource : firstEntity sources source = some sourceEntity
  targetEntity : Entity
  firstTarget : firstEntity targets target = some targetEntity

namespace WrittenMatch

/-- The match with its target offset. -/
def resolved (w : WrittenMatch) : FunctionMatch :=
  { w.found with targetOffset := (targetOffset rt w.entries w.found.targetFunctionId).or w.found.targetOffset }

/-- What `pair_matches` makes of the match. -/
def pairing (w : WrittenMatch) : Pairing :=
  pairMatch (indexEntities w.sources) (indexEntities w.targets) w.scheduled (w.resolved rt)

/-- The pair of the entities at the two addresses, if the source is scheduled. -/
def Resolves (w : WrittenMatch) : Prop :=
  w.pairing rt = if w.sourceEntity.entityId ∈ w.scheduled then
      .paired (matchPair { w.found with sourceOffset := w.source } w.target w.sourceEntity w.targetEntity)
    else .unscheduled

theorem sourceOffset_eq (w : WrittenMatch) : w.found.sourceOffset = w.summary.offset := by
  have hhit := w.hit
  unfold Summary.hit? at hhit
  split at hhit
  · split_ifs at hhit
    exact (congrArg Hit.sourceOffset (Option.some.inj hhit)).symm
  · cases hhit

/-- A negative address is found nowhere. -/
theorem lookup_negative {sources : List Entity} (h : ∀ e ∈ sources, 0 ≤ e.address) {address : ℤ} (ha : address < 0) :
    lookupEntity (indexEntities sources) address = none := by
  rw [lookupEntity_indexEntities, ← Option.not_isSome_iff_eq_none, isSome_firstEntity_iff]
  rintro ⟨e, he, hsame⟩
  have hnonneg := h e he
  unfold sameUpToBit0 clearBit0 at hsame
  omega

theorem pairMatch_found {sourceIndex targetIndex : EntityIndex} {scheduled : List ℤ} {m : FunctionMatch} {target : ℤ}
    {source found : Entity} (htarget : m.targetOffset = some target)
    (hsource : lookupEntity sourceIndex m.sourceOffset = some source)
    (hfound : lookupEntity targetIndex target = some found) :
    pairMatch sourceIndex targetIndex scheduled m =
      if source.entityId ∈ scheduled then .paired (matchPair m target source found) else .unscheduled := by
  simp only [pairMatch, htarget, hsource, hfound]

theorem pairMatch_missing {sourceIndex targetIndex : EntityIndex} {scheduled : List ℤ} {m : FunctionMatch}
    (hsource : lookupEntity sourceIndex m.sourceOffset = none) :
    pairMatch sourceIndex targetIndex scheduled m = .unresolved := by
  unfold pairMatch
  cases m.targetOffset with
  | none => rfl
  | some target => simp only [hsource]

/-- The match resolves to the entities at its addresses if and only if its summary has the unsigned
source address. -/
theorem resolves_iff (w : WrittenMatch) : w.Resolves rt ↔ w.summary.offset = w.source := by
  have hoffset := targetOffset_eq rt w.entry w.offset w.value_eq w.encodesTarget
  have htarget : lookupEntity (indexEntities w.targets) w.target = some w.targetEntity := by
    rw [lookupEntity_indexEntities, w.firstTarget]
  have hsource := w.sourceOffset_eq
  have hresolved : (w.resolved rt).targetOffset = some w.target := by
    unfold resolved
    rw [hoffset, Option.some_or]
  unfold Resolves pairing
  obtain ⟨hnonneg, hlt, hwritten | hwritten⟩ := w.encodesSource
  · have hsame : w.found.sourceOffset = w.source := hsource.trans hwritten
    have hfound : lookupEntity (indexEntities w.sources) w.found.sourceOffset = some w.sourceEntity := by
      rw [hsame, lookupEntity_indexEntities, w.firstSource]
    have hpair : matchPair (w.resolved rt) w.target w.sourceEntity w.targetEntity =
        matchPair { w.found with sourceOffset := w.source } w.target w.sourceEntity w.targetEntity := by
      rw [← hsame]
      rfl
    rw [pairMatch_found hresolved hfound htarget, hpair]
    exact iff_of_true rfl hwritten
  · have hmissing : lookupEntity (indexEntities w.sources) (w.resolved rt).sourceOffset = none :=
      lookup_negative w.unsigned (hsource.trans_lt (by omega))
    rw [pairMatch_missing hmissing]
    refine iff_of_false ?_ (by omega)
    split_ifs <;> exact nofun

/-! ## A kernel address -/

def kernelPayload : Json :=
  .dict [("matches", .dict [("functions", .list [.dict [("offset", .int (0xffff800000001000 - 2 ^ 64)),
    ("fid", .int 1), ("matches", .list [.list [.int 0, .int 9, .int 5, .float (.finite 90), .int 1]])]])])]

def kernelSummary : Summary := ⟨0xffff800000001000 - 2 ^ 64, 1, 0, [⟨0, 9, 5, .finite 90, 1⟩]⟩

theorem payloadJson_kernelPayload : PayloadJson kernelPayload [kernelSummary] := by
  have hzero : (Json.int 0).toFloat = .ok (.finite 0) := by decide +kernel
  exact .mk rfl rfl (.cons (.mk rfl rfl rfl rfl hzero rfl (.cons (.mk rfl rfl rfl rfl (.int 1 [])) .nil)) .nil)

/-- The match of the payload. -/
def kernelMatch : FunctionMatch where
  sourceOffset := 0xffff800000001000 - 2 ^ 64
  targetOffset := none
  sourceFunctionId := 1
  targetFunctionId := 5
  targetSampleId := 9
  targetFamilyId := 0
  score := 90
  flags := 1
  numBytes := .finite 0
  bestScore := some 90

/-- A function that is matched at its kernel address, which both answers give in its signed form. -/
def writtenKernelMatch : WrittenMatch where
  payload := kernelPayload
  summaries := [kernelSummary]
  payloadJson := payloadJson_kernelPayload
  filter := ⟨50, true, 5, none⟩
  matched := [kernelMatch]
  parsed := by decide +kernel
  summary := kernelSummary
  summary_mem := List.mem_singleton_self _
  row := ⟨0, 9, 5, .finite 90, 1⟩
  row_mem := List.mem_singleton_self _
  found := kernelMatch
  found_mem := List.mem_singleton_self _
  hit := by decide +kernel
  source := 0xffff800000001000
  encodesSource := ⟨by norm_num, by norm_num, Or.inr rfl⟩
  entries := OrderedMap.empty.put 5 (.dict [("offset", .int (0xffff800000002000 - 2 ^ 64))])
  members := [("offset", .int (0xffff800000002000 - 2 ^ 64))]
  entry := rfl
  value := .int (0xffff800000002000 - 2 ^ 64)
  offset := rfl
  written := 0xffff800000002000 - 2 ^ 64
  value_eq := rfl
  target := 0xffff800000002000
  encodesTarget := ⟨by norm_num, by norm_num, Or.inr rfl⟩
  sources := [⟨1, 0xffff800000001000, "f"⟩]
  targets := [⟨2, 0xffff800000002000, "g"⟩]
  unsigned := by simp
  scheduled := [1]
  sourceEntity := ⟨1, 0xffff800000001000, "f"⟩
  firstSource := by decide +kernel
  targetEntity := ⟨2, 0xffff800000002000, "g"⟩
  firstTarget := by decide +kernel

/-- Its pair is dropped. -/
theorem not_resolves_writtenKernelMatch : ¬ ∀ w : WrittenMatch, w.Resolves ⟨fun _ => none, fun _ => ""⟩ := by
  intro h
  have hpaired := h writtenKernelMatch
  have hpairing : writtenKernelMatch.pairing ⟨fun _ => none, fun _ => ""⟩ = .unresolved := by decide +kernel
  have hscheduled : writtenKernelMatch.sourceEntity.entityId ∈ writtenKernelMatch.scheduled :=
    List.mem_singleton_self _
  rw [Resolves, hpairing, if_pos hscheduled] at hpaired
  cases hpaired

end WrittenMatch

end McritSimilarity

import McritSimilarity.Parse

/-!
# Well-shaped matching payloads

A matching payload as the server means it, without its JSON: summaries of source functions, each with
the rows of the functions it matched.  `PayloadJson` relates a JSON value to such a payload, and
`selected` says which rows a filter selects, in order.  `parseVsResult_payload` is the result: parsing
the JSON selects these rows.
-/

set_option autoImplicit false

namespace McritSimilarity

open Python

/-- A row of a summary; its score may be any float. -/
structure Row where
  familyId : ℤ
  sampleId : ℤ
  functionId : ℤ
  score : PyFloat
  flags : ℤ
  deriving DecidableEq, Repr

/-- A source function with the rows it matched. -/
structure Summary where
  offset : ℤ
  functionId : ℤ
  numBytes : ℚ
  rows : List Row
  deriving DecidableEq, Repr

/-! ## JSON -/

/-- What may follow the four numbers of a row. -/
inductive FlagsJson : List Json → ℤ → Prop where
  | missing : FlagsJson [] 0
  | int (flags : ℤ) (rest : List Json) : FlagsJson (.int flags :: rest) flags
  | bool (b : Bool) (rest : List Json) :
      FlagsJson (.bool b :: rest) (if b then isPichashFlag else 0)

inductive RowJson : Json → Row → Prop where
  | mk {family sample fid score : Json} {rest : List Json} {r : Row}
      (hfamily : family.toInt = .ok r.familyId) (hsample : sample.toInt = .ok r.sampleId)
      (hfid : fid.toInt = .ok r.functionId) (hscore : score.toFloat = .ok r.score)
      (hflags : FlagsJson rest r.flags) :
      RowJson (.list (family :: sample :: fid :: score :: rest)) r

/-- A summary may have other members, and may leave out `num_bytes` and `matches`. -/
inductive SummaryJson : Json → Summary → Prop where
  | mk {members : List (String × Json)} {offset fid : Json} {rows : List Json} {s : Summary}
      (hoffset : members.lookup "offset" = some offset) (hoffsetInt : offset.toInt = .ok s.offset)
      (hfid : members.lookup "fid" = some fid) (hfidInt : fid.toInt = .ok s.functionId)
      (hbytes : ((members.lookup "num_bytes").getD (.int 0)).toFloat = .ok (.finite s.numBytes))
      (hmatches : (members.lookup "matches").getD (.list []) = .list rows)
      (hrows : List.Forall₂ RowJson rows s.rows) : SummaryJson (.dict members) s

inductive PayloadJson : Json → List Summary → Prop where
  | mk {members found : List (String × Json)} {functions : List Json} {p : List Summary}
      (hmatches : members.lookup "matches" = some (.dict found))
      (hfunctions : found.lookup "functions" = some (.list functions))
      (hsummaries : List.Forall₂ SummaryJson functions p) : PayloadJson (.dict members) p

/-- A document of these summaries. -/
def payloadOf (p : List Summary) : Json :=
  let row := fun r : Row =>
    Json.list [.int r.familyId, .int r.sampleId, .int r.functionId, .float r.score, .int r.flags]
  let summary := fun s : Summary =>
    Json.dict [("offset", .int s.offset), ("fid", .int s.functionId), ("num_bytes", .float (.finite s.numBytes)),
      ("matches", .list (s.rows.map row))]
  .dict [("info", .dict []), ("matches", .dict [("functions", .list (p.map summary))])]

theorem payloadJson_payloadOf (p : List Summary) : PayloadJson (payloadOf p) p := by
  refine .mk rfl rfl (List.forall₂_map_left_iff.2 (List.forall₂_same.2 fun s _ => .mk rfl rfl rfl rfl rfl rfl ?_))
  exact List.forall₂_map_left_iff.2 (List.forall₂_same.2 fun r _ => .mk rfl rfl rfl rfl (.int r.flags []))

/-! ## Selected rows -/

/-- An accepted row, with what it takes from its summary. -/
structure Hit where
  sourceOffset : ℤ
  functionId : ℤ
  isPichash : Bool
  score : ℚ
  numBytes : ℚ
  deriving DecidableEq, Repr

/-- PicHash matches first, then higher scores, then more bytes. -/
def hitLe (a b : Hit) : Prop :=
  a.isPichash = true ∧ b.isPichash = false ∨ a.isPichash = b.isPichash ∧
    (b.score < a.score ∨ a.score = b.score ∧ b.numBytes ≤ a.numBytes)

instance : DecidableRel hitLe := fun _ _ => inferInstanceAs (Decidable (_ ∨ _))

/-- A row is accepted when its score is finite and high enough, and when it passes the library filter
and the sample filter. -/
def Summary.hit? (filter : MatchFilter) (s : Summary) (r : Row) : Option Hit :=
  match r.score with
  | .finite score =>
    if filter.minScore ≤ score ∧
        (filter.includeLibrary = true ∨ hasFlag r.flags isLibraryFlag = false) ∧
        filter.targetSampleId.all (· = r.sampleId) then
      some ⟨s.offset, r.functionId, hasFlag r.flags isPichashFlag, score, s.numBytes⟩
    else none
  | _ => none

/-- The accepted rows of a payload, in its order. -/
def accepted (filter : MatchFilter) (p : List Summary) : List Hit :=
  p.flatMap fun s => s.rows.filterMap (s.hit? filter)

/-- For each source offset, in the order of first accepted rows, its best accepted rows. -/
def selected (filter : MatchFilter) (p : List Summary) : List Hit :=
  ((accepted filter p).map Hit.sourceOffset).eraseDups.flatMap fun offset =>
    (((accepted filter p).filter fun h => h.sourceOffset = offset).insertionSort hitLe).take
      (max 1 filter.maxResults).toNat

/-! ## Parsed rows -/

/-- The accepted row behind a match. -/
def FunctionMatch.hit (m : FunctionMatch) : Hit where
  sourceOffset := m.sourceOffset
  functionId := m.targetFunctionId
  isPichash := m.isPichash
  score := m.score
  numBytes := match m.numBytes with
    | .finite bytes => bytes
    | _ => 0

/-- A match of a well-shaped payload: the number of bytes is finite, the target offset unknown. -/
structure FunctionMatch.Parsed (m : FunctionMatch) : Prop where
  numBytes : m.numBytes = .finite m.hit.numBytes
  targetOffset : m.targetOffset = none

theorem parsed_iff (m : FunctionMatch) :
    m.Parsed ↔ m.numBytes = .finite m.hit.numBytes ∧ m.targetOffset = none :=
  ⟨fun h => ⟨h.numBytes, h.targetOffset⟩, fun h => ⟨h.1, h.2⟩⟩

def Summary.head (s : Summary) : SummaryHead := ⟨s.offset, |s.functionId|, .finite s.numBytes⟩

theorem rowFlags_of_flagsJson {family sample fid score : Json} {rest : List Json} {flags : ℤ}
    (h : FlagsJson rest flags) : rowFlags (family :: sample :: fid :: score :: rest) = flags := by
  cases h with
  | missing => rfl
  | int flags rest => simp [rowFlags, asFlags, Json.toInt]
  | bool b rest => simp [rowFlags, asFlags]

theorem readRow_eq {family sample fid score : Json} {rest : List Json} {r : Row}
    (hfamily : family.toInt = .ok r.familyId) (hsample : sample.toInt = .ok r.sampleId)
    (hfid : fid.toInt = .ok r.functionId) (hscore : score.toFloat = .ok r.score) :
    readRow (family :: sample :: fid :: score :: rest) =
      .ok (r.score, r.functionId, r.sampleId, r.familyId) := by
  simp only [readRow, List.getD_cons_succ, List.getD_cons_zero, hfamily, hsample, hfid, hscore, ok_bind]
  rfl

/-- The code accepts a row of a well-shaped summary exactly when it is accepted. -/
theorem map_hit_acceptRow (filter : MatchFilter) (s : Summary) {raw : Json} {r : Row}
    (h : RowJson raw r) : (acceptRow filter s.head raw).map FunctionMatch.hit = s.hit? filter r ∧
      ∀ m ∈ acceptRow filter s.head raw, m.Parsed := by
  obtain ⟨hfamily, hsample, hfid, hscore, hflags⟩ := h
  have hlen : ∀ (a b c d : Json) (rest : List Json), ¬ (a :: b :: c :: d :: rest).length < 4 := by
    intro a b c d rest
    simp only [List.length_cons]
    omega
  unfold acceptRow Summary.hit?
  simp only [if_neg (hlen _ _ _ _ _), rowFlags_of_flagsJson hflags, readRow_eq hfamily hsample hfid hscore]
  by_cases hlib : ¬ filter.includeLibrary = true ∧ hasFlag r.flags isLibraryFlag = true
  · rw [if_pos hlib]
    cases r.score with
    | finite score => simp [hlib.1, hlib.2]
    | _ => simp
  · rw [if_neg hlib]
    have hlib' : filter.includeLibrary = true ∨ hasFlag r.flags isLibraryFlag = false := by
      rw [not_and_or, not_not, Bool.not_eq_true] at hlib
      exact hlib
    cases r.score with
    | finite score =>
      by_cases hmin : score < filter.minScore
      · simp [hmin]
      · rw [not_lt] at hmin
        cases htarget : filter.targetSampleId with
        | none => simp [hmin, hlib', Summary.head, FunctionMatch.hit, FunctionMatch.isPichash,
            parsed_iff, not_lt.2 hmin]
        | some sample =>
          by_cases hs : sample = r.sampleId
          · simp [hmin, hlib', hs, Summary.head, FunctionMatch.hit, FunctionMatch.isPichash,
              parsed_iff, not_lt.2 hmin]
          · simp [hs, not_lt.2 hmin]
    | _ => simp

/-! ## Summaries -/

theorem filterMap_hit_acceptRow (filter : MatchFilter) (s : Summary) {raws : List Json}
    {rows : List Row} (h : List.Forall₂ RowJson raws rows) :
    (raws.filterMap (acceptRow filter s.head)).map FunctionMatch.hit = rows.filterMap (s.hit? filter) ∧
      ∀ m ∈ raws.filterMap (acceptRow filter s.head), m.Parsed := by
  induction h with
  | nil => simp
  | cons hrow _ ih =>
    obtain ⟨hhit, hparsed⟩ := map_hit_acceptRow filter s hrow
    cases hm : acceptRow filter s.head _ with
    | none =>
      rw [hm, Option.map_none] at hhit
      rw [List.filterMap_cons_none hm, List.filterMap_cons_none hhit.symm]
      exact ih
    | some m =>
      rw [hm, Option.map_some] at hhit
      rw [List.filterMap_cons_some hm, List.filterMap_cons_some hhit.symm, List.map_cons, ih.1]
      refine ⟨rfl, fun m' hm' => ?_⟩
      rcases List.mem_cons.1 hm' with rfl | hm'
      · exact hparsed _ hm
      · exact ih.2 m' hm'

/-- `value or 0` changes no number. -/
theorem toFloat_orElse_zero {value : Json} {q : ℚ} (h : value.toFloat = .ok (.finite q)) :
    (value.orElse (.int 0)).toFloat = .ok (.finite q) := by
  unfold Json.orElse
  split_ifs with htruthy
  · exact h
  · have hzero : roundDouble ((0 : ℤ) : ℚ) = .finite 0 := by decide +kernel
    rw [← h]
    cases value with
    | null => cases h
    | bool b =>
      obtain rfl : b = false := by simpa [Json.truthy] using htruthy
      simp only [Json.toFloat, hzero, Bool.false_eq_true, if_false]
    | int n =>
      obtain rfl : n = 0 := by simpa [Json.truthy] using htruthy
      rfl
    | float x =>
      obtain rfl : x = .finite 0 := by simpa [Json.truthy] using htruthy
      simp only [Json.toFloat, hzero]
    | str s =>
      obtain rfl : s = "" := by simpa [Json.truthy] using htruthy
      have hempty : floatOfText "" = none := by decide +kernel
      simp only [Json.toFloat, hempty] at h
      cases h
    | list xs => cases h
    | dict members => cases h

theorem list_orElse (xs : List Json) : (Json.list xs).orElse (.list []) = .list xs := by
  cases xs <;> rfl

theorem summaryMatches_eq (filter : MatchFilter) {summary : Json} {s : Summary}
    (h : SummaryJson summary s) : ∃ ms, summaryMatches filter summary = .ok ms ∧
      ms.map FunctionMatch.hit = s.rows.filterMap (s.hit? filter) ∧ ∀ m ∈ ms, m.Parsed := by
  obtain ⟨hoffset, hoffsetInt, hfid, hfidInt, hbytes, hmatches, hrows⟩ := h
  next members offset fid rows =>
  have hnum : ((((members.lookup "num_bytes").getD .null).orElse (.int 0)).toFloat) =
      .ok (.finite s.numBytes) := by
    cases hlookup : members.lookup "num_bytes" with
    | none =>
      rw [hlookup] at hbytes
      exact hbytes
    | some value =>
      rw [hlookup] at hbytes
      exact toFloat_orElse_zero hbytes
  have hhead : readSummary (.dict members) = .ok s.head := by
    simp only [readSummary, Json.getItem, Json.get, hoffset, hfid, ok_bind, hoffsetInt, hfidInt, hnum]
    rfl
  have hlist : (((members.lookup "matches").getD .null).orElse (.list [])) = .list rows := by
    cases hlookup : members.lookup "matches" with
    | none =>
      rw [hlookup] at hmatches
      exact hmatches
    | some value =>
      rw [hlookup, Option.getD_some] at hmatches
      rw [hmatches]
      exact list_orElse rows
  refine ⟨rows.filterMap (acceptRow filter s.head), ?_, filterMap_hit_acceptRow filter s hrows⟩
  simp only [summaryMatches, hhead, skipUnreadable, ok_bind, Json.get, hlist, Json.iter, uncaught]
  rfl

theorem acceptedMatches_eq (filter : MatchFilter) {functions : List Json} {p : List Summary}
    (h : List.Forall₂ SummaryJson functions p) : ∃ ms, acceptedMatches filter functions = .ok ms ∧
      ms.map FunctionMatch.hit = accepted filter p ∧ ∀ m ∈ ms, m.Parsed := by
  induction h with
  | nil => exact ⟨[], rfl, rfl, by simp⟩
  | cons hsummary _ ih =>
    obtain ⟨first, hfirst, hhits, hparsed⟩ := summaryMatches_eq filter hsummary
    obtain ⟨rest, hrest, hhits', hparsed'⟩ := ih
    refine ⟨first ++ rest, ?_, ?_, fun m hm => ?_⟩
    · simp only [acceptedMatches, hfirst, hrest, ok_bind]
      rfl
    · rw [List.map_append, hhits, hhits']
      rfl
    · rcases List.mem_append.1 hm with hm | hm
      · exact hparsed m hm
      · exact hparsed' m hm

/-! ## Groups -/

theorem ranksLe_iff {a b : FunctionMatch} (ha : a.Parsed) (hb : b.Parsed) :
    ranksLe a b ↔ hitLe a.hit b.hit := by
  have hbytes : floatLt a.numBytes b.numBytes = decide (a.hit.numBytes < b.hit.numBytes) := by
    rw [ha.numBytes, hb.numBytes]
    rfl
  have hpa : a.hit.isPichash = a.isPichash := rfl
  have hpb : b.hit.isPichash = b.isPichash := rfl
  have hsa : a.hit.score = a.score := rfl
  have hsb : b.hit.score = b.score := rfl
  unfold ranksLe ranksBefore hitLe
  rw [hbytes, hpa, hpb, hsa, hsb]
  by_cases hp : b.isPichash = a.isPichash
  · rw [if_neg (not_not.2 hp)]
    by_cases hs : b.score = a.score
    · simp [hp, hs]
    · simp [hp, hs, Ne.symm hs, le_iff_lt_or_eq]
  · rw [if_pos hp]
    cases ha : a.isPichash <;> cases hb : b.isPichash <;> simp_all

theorem parsed_selectGroup {limit : ℤ} {group : List FunctionMatch} (h : ∀ m ∈ group, m.Parsed)
    {m : FunctionMatch} (hm : m ∈ selectGroup limit group) : m.Parsed := by
  obtain ⟨ranked, hranked, rfl⟩ := List.mem_map.1 hm
  have hgroup : ranked ∈ group := (List.mem_insertionSort _).1 (List.mem_of_mem_take hranked)
  exact ⟨(h ranked hgroup).numBytes, (h ranked hgroup).targetOffset⟩

/-- The matches selected from a group are its best rows. -/
theorem map_hit_selectGroup (limit : ℤ) {group : List FunctionMatch} (h : ∀ m ∈ group, m.Parsed) :
    (selectGroup limit group).map FunctionMatch.hit =
      ((group.map FunctionMatch.hit).insertionSort hitLe).take limit.toNat := by
  have hsort : (group.insertionSort ranksLe).map FunctionMatch.hit =
      (group.map FunctionMatch.hit).insertionSort hitLe :=
    List.map_insertionSort ranksLe hitLe _ _ fun a ha b hb => ranksLe_iff (h a ha) (h b hb)
  have hstats : ∀ count stats, FunctionMatch.hit ∘ withStats count stats = FunctionMatch.hit :=
    fun _ _ => rfl
  unfold selectGroup
  rw [List.map_map, hstats, List.map_take, hsort]

theorem hit_filter_sourceOffset (ms : List FunctionMatch) (offset : ℤ) :
    (ms.filter fun m => m.sourceOffset = offset).map FunctionMatch.hit =
      (ms.map FunctionMatch.hit).filter fun h => h.sourceOffset = offset := by
  rw [List.filter_map]
  rfl

/-- `max_results` does not decide which rows are accepted. -/
theorem acceptedMatches_maxResults (filter : MatchFilter) (maxResults : ℤ) (functions : List Json) :
    acceptedMatches { filter with maxResults := maxResults } functions = acceptedMatches filter functions := by
  induction functions with
  | nil => rfl
  | cons summary functions ih =>
    rw [acceptedMatches, acceptedMatches, ih]
    rfl

/-- The accepted matches by offset, in the order of the first ones. -/
theorem values_groups (ms : List FunctionMatch) : (ms.foldl addToGroup .empty).values =
    (ms.map FunctionMatch.sourceOffset).eraseDups.map fun offset =>
      ms.filter fun m => m.sourceOffset = offset := by
  have hentries := OrderedMap.entries_group FunctionMatch.sourceOffset ms
  unfold OrderedMap.values addToGroup
  rw [hentries, List.map_map]
  rfl

/-- The accepted rows of a well-shaped payload, and the groups that are selected from. -/
theorem parseVsResult_groups (filter : MatchFilter) {payload : Json} {p : List Summary}
    (h : PayloadJson payload p) : ∃ ms : List FunctionMatch, ms.map FunctionMatch.hit = accepted filter p ∧
      (∀ m ∈ ms, m.Parsed) ∧ ∀ maxResults,
        parseVsResult payload { filter with maxResults := maxResults } =
          .ok ((ms.map FunctionMatch.sourceOffset).eraseDups.flatMap fun offset =>
            selectGroup (max 1 maxResults) (ms.filter fun m => m.sourceOffset = offset)) := by
  obtain ⟨hmatches, hfunctions, hsummaries⟩ := h
  next members found functions =>
  obtain ⟨ms, hms, hhits, hparsed⟩ := acceptedMatches_eq filter hsummaries
  have hlist : payloadFunctions (.dict members) = .list functions := by
    simp only [payloadFunctions, hmatches, Option.getD_some, hfunctions, list_orElse]
  refine ⟨ms, hhits, hparsed, fun maxResults => ?_⟩
  simp only [parseVsResult, hlist, Json.iter, uncaught, ok_bind, acceptedMatches_maxResults, hms]
  rw [values_groups, List.flatMap_map]
  rfl

/-- Parsing a well-shaped payload selects its selected rows, in their order. -/
theorem parseVsResult_payload (filter : MatchFilter) {payload : Json} {p : List Summary}
    (h : PayloadJson payload p) : ∃ ms, parseVsResult payload filter = .ok ms ∧
      ms.map FunctionMatch.hit = selected filter p ∧ ∀ m ∈ ms, m.Parsed := by
  obtain ⟨ms, hhits, hparsed, hparse⟩ := parseVsResult_groups filter h
  have hgroup : ∀ offset, ∀ m ∈ ms.filter fun m => m.sourceOffset = offset, m.Parsed :=
    fun offset m hm => hparsed m (List.mem_filter.1 hm).1
  refine ⟨_, hparse filter.maxResults, ?_, fun m hm => ?_⟩
  · rw [List.map_flatMap, selected, ← hhits, List.map_map]
    refine List.flatMap_congr fun offset _ => ?_
    rw [map_hit_selectGroup _ (hgroup offset), hit_filter_sourceOffset]
  · obtain ⟨offset, -, hm⟩ := List.mem_flatMap.1 hm
    exact parsed_selectGroup (hgroup offset) hm

/-! ## Selected groups -/

theorem eq_withStats_of_mem {limit : ℤ} {group : List FunctionMatch} {m : FunctionMatch}
    (hm : m ∈ selectGroup limit group) : ∃ m' ∈ group.insertionSort ranksLe,
      m = withStats (group.insertionSort ranksLe).length
        ((group.insertionSort ranksLe).foldl GroupStats.add {}) m' := by
  obtain ⟨m', hm', rfl⟩ := List.mem_map.1 hm
  exact ⟨m', List.mem_of_mem_take hm', rfl⟩

/-- A selected match is an accepted one with the statistics of its group. -/
theorem mem_selectGroup {limit : ℤ} {group : List FunctionMatch} {m : FunctionMatch}
    (h : m ∈ selectGroup limit group) : ∃ m' ∈ group, ∃ count stats, m = withStats count stats m' := by
  obtain ⟨m', hm', heq⟩ := eq_withStats_of_mem h
  exact ⟨m', (List.mem_insertionSort _).1 hm', _, _, heq⟩

/-- A match selected from the group of an offset is one of the offset. -/
theorem sourceOffset_of_mem_selectGroup {limit offset : ℤ} {ms : List FunctionMatch} {m : FunctionMatch}
    (hm : m ∈ selectGroup limit (ms.filter fun m => m.sourceOffset = offset)) : m.sourceOffset = offset := by
  obtain ⟨m', hm', count, stats, rfl⟩ := mem_selectGroup hm
  exact of_decide_eq_true (List.mem_filter.1 hm').2

end McritSimilarity

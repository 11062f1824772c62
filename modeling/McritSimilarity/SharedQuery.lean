import McritSimilarity.MalformedPayloads
import McritSimilarity.Provider

/-!
# One corpus query for all edges

With `query_per_node` a visit parses its own rows out of a payload that all edges of the node share.
`ofSample s` is the payload that holds the rows of sample `s` alone, which is what a query of the edge
returns; `sharedQuery` shows that the visit does the same with either.
-/

set_option autoImplicit false

namespace McritSimilarity

open Python

/-! ## The rows of one sample -/

/-- A row whose sample id converts to `sample`. -/
def rowOfSample (sample : ℤ) (raw : Json) : Bool :=
  match raw with
  | .list row => match (row.getD 1 .null).toInt with
    | .ok id => id = sample
    | .error _ => false
  | _ => false

/-- The rows of a summary that are those of one sample. -/
def rowsOfSample (sample : ℤ) (value : Json) : Json :=
  match value with
  | .list rows => .list (rows.filter (rowOfSample sample))
  | other => other

/-- A summary with the rows of one sample. -/
def summaryOfSample (sample : ℤ) (summary : Json) : Json :=
  match summary.get "matches" with
  | .ok (.list rows) => withMember "matches" (.list (rows.filter (rowOfSample sample))) summary
  | _ => summary

/-- The `functions` of a payload with the rows of one sample. -/
def functionsOfSample (sample : ℤ) (functions : Json) : Json :=
  match functions with
  | .list summaries => .list (summaries.map (summaryOfSample sample))
  | other => other

/-- A dictionary with one of its values replaced. -/
def mapMember (key : String) (f : Json → Json) : Json → Json
  | .dict members => .dict (members.map fun m => if m.1 = key then (key, f m.2) else m)
  | other => other

/-- A payload with the rows of one sample. -/
def ofSample (sample : ℤ) (payload : Json) : Json :=
  mapMember "matches" (mapMember "functions" (functionsOfSample sample)) payload

/-- A filter with another sample filter. -/
def MatchFilter.withSample (filter : MatchFilter) (sample : Option ℤ) : MatchFilter :=
  { filter with targetSampleId := sample }

/-! ## Rows -/

variable {filter : MatchFilter} {sample : ℤ} {own : Option ℤ}

theorem toInt_of_readRow {row : List Json} {score : PyFloat} {fid id family : ℤ}
    (h : readRow row = .ok (score, fid, id, family)) : (row.getD 1 .null).toInt = .ok id := by
  unfold readRow at h
  cases hscore : (row.getD 3 .null).toFloat with
  | error e => rw [hscore] at h; cases h
  | ok score' =>
    cases hfid : (row.getD 2 .null).toInt with
    | error e => rw [hscore, hfid] at h; cases h
    | ok fid' =>
      cases hid : (row.getD 1 .null).toInt with
      | error e => rw [hscore, hfid, hid] at h; cases h
      | ok id' =>
        cases hfamily : (row.getD 0 .null).toInt with
        | error e => rw [hscore, hfid, hid, hfamily] at h; cases h
        | ok family' =>
          rw [hscore, hfid, hid, hfamily] at h
          cases h
          rfl

/-- The sample filter drops exactly the rows of other samples. -/
theorem acceptRow_withSample (hown : own = none ∨ own = some sample) (head : SummaryHead) (raw : Json) :
    acceptRow (filter.withSample (some sample)) head raw =
      if rowOfSample sample raw then acceptRow (filter.withSample own) head raw else none := by
  obtain ⟨minScore, includeLibrary, maxResults, -⟩ := filter
  show acceptRow ⟨minScore, includeLibrary, maxResults, some sample⟩ head raw =
    if rowOfSample sample raw then acceptRow ⟨minScore, includeLibrary, maxResults, own⟩ head raw else none
  cases raw with
  | list row =>
    simp only [acceptRow]
    by_cases hlength : row.length < 4
    · rw [if_pos hlength, if_pos hlength, ite_self]
    rw [if_neg hlength, if_neg hlength]
    by_cases hlibrary : ¬ includeLibrary = true ∧ hasFlag (rowFlags row) isLibraryFlag = true
    · rw [if_pos hlibrary, if_pos hlibrary, ite_self]
    rw [if_neg hlibrary, if_neg hlibrary]
    cases hread : readRow row with
    | error e => exact (ite_self _).symm
    | ok numbers =>
      obtain ⟨score, fid, id, family⟩ := numbers
      have hrow : rowOfSample sample (.list row) = decide (id = sample) := by
        simp only [rowOfSample, toInt_of_readRow hread]
      cases score with
      | finite score =>
        rw [hrow]
        by_cases hid : id = sample
        · subst hid
          have hpass : own.any (· ≠ id) = false := by
            rcases hown with rfl | rfl <;> simp
          have hself : (some id).any (· ≠ id) = false := by simp
          simp only [hpass, hself, decide_true, if_true]
        · have hother : (some sample).any (· ≠ id) = true := by
            simpa using Ne.symm hid
          simp only [hother, hid, decide_false, if_true, ite_self]
          rfl
      | _ => exact (ite_self _).symm
  | _ => exact (ite_self _).symm

theorem filterMap_rowOfSample (hown : own = none ∨ own = some sample) (head : SummaryHead)
    (rows : List Json) :
    rows.filterMap (acceptRow (filter.withSample (some sample)) head) =
      (rows.filter (rowOfSample sample)).filterMap (acceptRow (filter.withSample own) head) := by
  rw [List.filterMap_filter]
  exact List.filterMap_congr fun raw _ => acceptRow_withSample hown head raw

/-- Elements of a container other than a list are strings, which are not rows. -/
theorem filterMap_acceptRow_of_not_list (head : SummaryHead) {value : Json}
    (h : ∀ rows, value ≠ .list rows) (filter : MatchFilter) :
    (elements value).filterMap (acceptRow filter head) = [] := by
  refine List.filterMap_eq_nil_iff.2 fun raw hraw => ?_
  cases value with
  | list rows => exact absurd rfl (h rows)
  | dict members =>
    obtain ⟨m, -, rfl⟩ := List.mem_map.1 hraw
    rfl
  | str s =>
    obtain ⟨c, -, rfl⟩ := List.mem_map.1 hraw
    rfl
  | _ => cases hraw

theorem rowsOfSample_of_not_list (sample : ℤ) {value : Json} (h : ∀ rows, value ≠ .list rows) :
    rowsOfSample sample value = value := by
  cases value with
  | list rows => exact absurd rfl (h rows)
  | _ => rfl

/-! ## Summaries -/

theorem readSummary_summaryOfSample (sample : ℤ) (summary : Json) :
    readSummary (summaryOfSample sample summary) = readSummary summary := by
  unfold summaryOfSample
  split
  · exact readSummary_withMember _ _
  · rfl

theorem summaryRows_summaryOfSample (sample : ℤ) {summary : Json} (hreadable : readableSummary summary = true) :
    summaryRows (summaryOfSample sample summary) = rowsOfSample sample (summaryRows summary) := by
  obtain ⟨members, rfl⟩ := get_of_readable hreadable
  cases hfound : members.lookup "matches" with
  | none =>
    have hsame : summaryOfSample sample (.dict members) = .dict members := by
      simp only [summaryOfSample, Json.get, hfound, Option.getD_none]
    rw [hsame]
    have hnil : summaryRows (.dict members) = .list [] := by
      simp only [summaryRows, Json.get, hfound]
      rfl
    rw [hnil]
    rfl
  | some value =>
    have hrows : summaryRows (.dict members) = value.orElse (.list []) := by
      simp only [summaryRows, Json.get, hfound, Option.getD_some]
    cases value with
    | list rows =>
      rw [list_orElse] at hrows
      have hsummary : summaryRows (summaryOfSample sample (.dict members)) =
          (Json.list (rows.filter (rowOfSample sample))).orElse (.list []) := by
        simp only [summaryOfSample, summaryRows, Json.get, hfound, Option.getD_some, withMember,
          lookup_withMember, if_true, Option.map_some]
      rw [hsummary, hrows, list_orElse]
      rfl
    | _ =>
      have hsame : summaryOfSample sample (.dict members) = .dict members := by
        simp only [summaryOfSample, Json.get, hfound, Option.getD_some]
      rw [hsame, hrows]
      unfold Json.orElse
      split_ifs <;> rfl

theorem summaryMatches_ofSample (hown : own = none ∨ own = some sample) (summary : Json) :
    summaryMatches (filter.withSample (some sample)) summary =
      summaryMatches (filter.withSample own) (summaryOfSample sample summary) := by
  have hread' := readSummary_summaryOfSample sample summary
  cases hread : readSummary summary with
  | error e =>
    rw [hread] at hread'
    rw [summaryMatches_of_not_readable _ (by rw [readableSummary, hread]),
      summaryMatches_of_not_readable _ (by rw [readableSummary, hread'])]
  | ok head =>
    rw [hread] at hread'
    have hreadable : readableSummary summary = true := by rw [readableSummary, hread]
    have hrows := summaryRows_summaryOfSample sample hreadable
    rw [summaryMatches_of_head _ hread, summaryMatches_of_head _ hread', hrows]
    by_cases hlist : ∃ rows, summaryRows summary = .list rows
    · obtain ⟨rows, hlist⟩ := hlist
      rw [hlist]
      show uncaught (.ok rows) >>= _ = uncaught (.ok (rows.filter (rowOfSample sample))) >>= _
      simp only [uncaught, ok_bind, filterMap_rowOfSample hown head rows]
    · rw [not_exists] at hlist
      rw [rowsOfSample_of_not_list sample hlist]
      cases hiter : uncaught (summaryRows summary).iter with
      | error e => rfl
      | ok rows =>
        obtain ⟨-, rfl⟩ := uncaught_iter_eq_ok_iff.1 hiter
        simp only [ok_bind, filterMap_acceptRow_of_not_list head hlist]

/-! ## Payloads -/

theorem acceptedMatches_ofSample (hown : own = none ∨ own = some sample) (summaries : List Json) :
    acceptedMatches (filter.withSample (some sample)) summaries =
      acceptedMatches (filter.withSample own) (summaries.map (summaryOfSample sample)) := by
  induction summaries with
  | nil => rfl
  | cons summary summaries ih =>
    simp only [acceptedMatches, List.map_cons, summaryMatches_ofSample hown summary, ih]

theorem functionsOfSample_of_not_list (sample : ℤ) {functions : Json}
    (h : ∀ summaries, functions ≠ .list summaries) : functionsOfSample sample functions = functions := by
  cases functions with
  | list summaries => exact absurd rfl (h summaries)
  | _ => rfl

theorem functionsOfSample_orElse (sample : ℤ) (functions : Json) :
    (functionsOfSample sample functions).orElse (.list []) =
      functionsOfSample sample (functions.orElse (.list [])) := by
  by_cases hlist : ∃ summaries, functions = .list summaries
  · obtain ⟨summaries, rfl⟩ := hlist
    rw [list_orElse]
    exact list_orElse _
  · rw [not_exists] at hlist
    rw [functionsOfSample_of_not_list sample hlist]
    unfold Json.orElse
    split_ifs
    · exact (functionsOfSample_of_not_list sample hlist).symm
    · rfl

/-- Elements of a container other than a list are strings, which are not summaries. -/
theorem acceptedMatches_of_not_list (filter : MatchFilter) {functions : Json}
    (h : ∀ summaries, functions ≠ .list summaries) :
    acceptedMatches filter (elements functions) = .ok [] := by
  have hskip : ∀ summaries : List Json, (∀ summary ∈ summaries, ∃ s, summary = .str s) →
      acceptedMatches filter summaries = .ok [] := by
    intro summaries hsummaries
    induction summaries with
    | nil => rfl
    | cons summary summaries ih =>
      rw [List.forall_mem_cons] at hsummaries
      obtain ⟨⟨s, rfl⟩, hrest⟩ := hsummaries
      have hfirst : summaryMatches filter (.str s) = .ok [] := summaryMatches_of_not_readable filter rfl
      simp only [acceptedMatches, hfirst, ih hrest, ok_bind]
      rfl
  refine hskip _ fun summary hsummary => ?_
  cases functions with
  | list summaries => exact absurd rfl (h summaries)
  | dict members =>
    obtain ⟨m, -, rfl⟩ := List.mem_map.1 hsummary
    exact ⟨m.1, rfl⟩
  | str s =>
    obtain ⟨c, -, rfl⟩ := List.mem_map.1 hsummary
    exact ⟨_, rfl⟩
  | _ => cases hsummary

theorem payloadFunctions_ofSample (sample : ℤ) (payload : Json) :
    payloadFunctions (ofSample sample payload) = functionsOfSample sample (payloadFunctions payload) := by
  cases payload with
  | dict members =>
    have hlookup := lookup_mapMember "matches" (mapMember "functions" (functionsOfSample sample)) members
      "matches"
    rw [if_pos rfl] at hlookup
    have hdict : payloadFunctions (ofSample sample (.dict members)) =
        match (((members.lookup "matches").map (mapMember "functions" (functionsOfSample sample))).getD
            .null) with
        | .dict matchMembers => ((matchMembers.lookup "functions").getD .null).orElse (.list [])
        | _ => .list [] := by
      rw [← hlookup]
      rfl
    rw [hdict]
    simp only [payloadFunctions]
    cases members.lookup "matches" with
    | none => rfl
    | some found =>
      cases found with
      | dict matchMembers =>
        simp only [Option.map_some, Option.getD_some, mapMember, lookup_mapMember, if_true]
        cases matchMembers.lookup "functions" with
        | none => rfl
        | some functions => exact functionsOfSample_orElse sample functions
      | _ => rfl
  | _ => rfl

/-- The rows of one sample parse to the matches that the sample filter selects from all rows. -/
theorem parseVsResult_ofSample (hown : own = none ∨ own = some sample) (payload : Json) :
    parseVsResult payload (filter.withSample (some sample)) =
      parseVsResult (ofSample sample payload) (filter.withSample own) := by
  simp only [parseVsResult, payloadFunctions_ofSample]
  by_cases hlist : ∃ summaries, payloadFunctions payload = .list summaries
  · obtain ⟨summaries, hlist⟩ := hlist
    rw [hlist]
    show (acceptedMatches (filter.withSample (some sample)) summaries >>= _) =
      (acceptedMatches (filter.withSample own) (summaries.map (summaryOfSample sample)) >>= _)
    rw [acceptedMatches_ofSample hown]
    rfl
  · rw [not_exists] at hlist
    rw [functionsOfSample_of_not_list sample hlist]
    cases hiter : uncaught (payloadFunctions payload).iter with
    | error e => rfl
    | ok summaries =>
      obtain ⟨-, rfl⟩ := uncaught_iter_eq_ok_iff.1 hiter
      simp only [ok_bind, acceptedMatches_of_not_list _ hlist]
      rfl

/-- A shared query gives an edge what its own query gives: the same matches with the same statistics, the
same pairs, and a visit that goes on as the same program. -/
theorem sharedQuery (rt : Runtime) (payload : Json) (filter : MatchFilter) (sample : ℤ) :
    parseVsResult payload (filter.withSample (some sample)) =
        parseVsResult (ofSample sample payload) (filter.withSample none) ∧
      parseVsResult payload (filter.withSample (some sample)) =
        parseVsResult (ofSample sample payload) (filter.withSample (some sample)) ∧
      (∀ offsets sourceIndex targetIndex scheduled,
        (parseVsResult payload (filter.withSample (some sample))).map
            (fun ms => pairMatches (withTargetOffsets offsets ms) sourceIndex targetIndex scheduled) =
          (parseVsResult (ofSample sample payload) (filter.withSample none)).map
            fun ms => pairMatches (withTargetOffsets offsets ms) sourceIndex targetIndex scheduled) ∧
      ∀ fromNode toNode fromView config client fromReport fromSample,
        visitPayload rt fromNode toNode fromView config client fromReport fromSample payload =
          visitPayload rt fromNode toNode fromView config client fromReport fromSample
            (ofSample fromSample.sampleId payload) := by
  have hnone : parseVsResult payload (filter.withSample (some sample)) =
      parseVsResult (ofSample sample payload) (filter.withSample none) :=
    parseVsResult_ofSample (Or.inl rfl) payload
  refine ⟨hnone, parseVsResult_ofSample (Or.inr rfl) payload,
    fun offsets sourceIndex targetIndex scheduled => by rw [hnone],
    fun fromNode toNode fromView config client fromReport fromSample => ?_⟩
  have hfilter : visitFilter config fromSample =
      (visitFilter config fromSample).withSample (some fromSample.sampleId) := rfl
  unfold visitPayload
  rw [hfilter, parseVsResult_ofSample (Or.inr rfl)]

end McritSimilarity

import McritSimilarity.Payload

/-!
# Malformed payloads

What `parseVsResult` does with any JSON value.  It raises when a container that it goes through is
neither missing nor empty nor iterable (`parsesSafely_iff`); otherwise every match passes the filters, no
offset has more matches than its cap, and what cannot be read is skipped: `readablePart` is the payload
without it, and parses the same.
-/

set_option autoImplicit false

namespace McritSimilarity

open Python

/-! ## Readable parts -/

/-- A value that a `for` loop goes through. -/
def iterable : Json → Bool
  | .list _ => true
  | .dict _ => true
  | .str _ => true
  | _ => false

/-- The elements of an iterable value. -/
def elements (value : Json) : List Json :=
  match value.iter with
  | .ok xs => xs
  | .error _ => []

/-- `summary.get("matches") or []`. -/
def summaryRows (summary : Json) : Json :=
  match summary.get "matches" with
  | .ok rows => rows.orElse (.list [])
  | .error _ => .list []

def readableSummary (summary : Json) : Bool :=
  match readSummary summary with
  | .ok _ => true
  | .error _ => false

def readableRow (raw : Json) : Bool :=
  match raw with
  | .list row => 4 ≤ row.length && match readRow row with
    | .ok _ => true
    | .error _ => false
  | _ => false

/-- A dictionary with another value under one of its keys. -/
def withMember (key : String) (value : Json) : Json → Json
  | .dict members => .dict (members.map fun m => if m.1 = key then (key, value) else m)
  | other => other

/-- A summary without the rows that cannot be read. -/
def readableRows (summary : Json) : Json :=
  withMember "matches" (.list ((elements (summaryRows summary)).filter readableRow)) summary

/-- A payload without the summaries and rows that cannot be read. -/
def readablePart (payload : Json) : Json :=
  .dict [("matches", .dict [("functions",
    .list (((elements (payloadFunctions payload)).filter readableSummary).map readableRows))])]

/-- The containers of a payload are iterable, missing or empty: its `functions`, and the `matches` of
every summary that can be read. -/
def Iterates (payload : Json) : Prop :=
  iterable (payloadFunctions payload) = true ∧
    ∀ summary ∈ elements (payloadFunctions payload), readableSummary summary = true →
      iterable (summaryRows summary) = true

/-- Parsing returns a list of matches that pass the filters, within the cap of each offset, and skips
what cannot be read. -/
def ParsesSafely (payload : Json) (filter : MatchFilter) : Prop :=
  ∃ matched, parseVsResult payload filter = .ok matched ∧
    (∀ m ∈ matched, filter.minScore ≤ m.score ∧
      (filter.includeLibrary = true ∨ hasFlag m.flags isLibraryFlag = false) ∧
        ∀ sample, filter.targetSampleId = some sample → m.targetSampleId = sample) ∧
    (∀ offset, ((matched.filter fun m => m.sourceOffset = offset).length : ℤ) ≤ max 1 filter.maxResults) ∧
    parseVsResult (readablePart payload) filter = .ok matched

/-! ## Iteration -/

theorem iter_eq_ok_iff {value : Json} : (∃ xs, value.iter = .ok xs) ↔ iterable value = true := by
  cases value <;> simp [Json.iter, iterable]

theorem iter_eq_elements {value : Json} (h : iterable value = true) : value.iter = .ok (elements value) := by
  obtain ⟨xs, hxs⟩ := iter_eq_ok_iff.2 h
  rw [elements, hxs]

theorem uncaught_iter_eq_ok_iff {value : Json} {xs : List Json} :
    uncaught value.iter = .ok xs ↔ iterable value = true ∧ xs = elements value := by
  cases hiter : value.iter with
  | ok ys =>
    have hiterable : iterable value = true := iter_eq_ok_iff.1 ⟨ys, hiter⟩
    simp [uncaught, elements, hiter, hiterable, eq_comm]
  | error e =>
    have hnot : iterable value = false := by
      by_contra h
      obtain ⟨ys, hys⟩ := iter_eq_ok_iff.2 (Bool.not_eq_false _ ▸ h)
      rw [hiter] at hys
      cases hys
    simp [uncaught, hnot]

/-! ## Summaries -/

theorem bind_ne_error {ε α β : Type} {e : ε} {x : Except ε α} {f : α → Except ε β} (hx : x ≠ .error e)
    (hf : ∀ a, f a ≠ .error e) : (x >>= f) ≠ .error e := by
  cases x with
  | ok a => exact hf a
  | error e' =>
    intro h
    refine hx ?_
    cases h
    rfl

theorem toInt_ne_attributeError (value : Json) : value.toInt ≠ .error .attributeError := by
  intro h
  cases value with
  | float x => cases x <;> cases h
  | str s =>
    simp only [Json.toInt] at h
    split at h <;> cases h
  | _ => cases h

theorem toFloat_ne_attributeError (value : Json) : value.toFloat ≠ .error .attributeError := by
  intro h
  cases value with
  | int n =>
    simp only [Json.toFloat] at h
    split at h <;> cases h
  | str s =>
    simp only [Json.toFloat] at h
    split at h <;> cases h
  | _ => cases h

theorem getItem_ne_attributeError (value : Json) (key : String) :
    value.getItem key ≠ .error .attributeError := by
  intro h
  cases value with
  | dict members =>
    simp only [Json.getItem] at h
    split at h <;> cases h
  | _ => cases h

/-- The `except` clause of a summary lets nothing pass: only a dictionary gets as far as `get`. -/
theorem readSummary_ne_attributeError (summary : Json) : readSummary summary ≠ .error .attributeError := by
  unfold readSummary
  cases summary with
  | dict members =>
    refine bind_ne_error (getItem_ne_attributeError _ _) fun offset => ?_
    refine bind_ne_error (toInt_ne_attributeError _) fun _ => ?_
    refine bind_ne_error (getItem_ne_attributeError _ _) fun fid => ?_
    refine bind_ne_error (toInt_ne_attributeError _) fun _ => ?_
    refine bind_ne_error nofun fun numBytes => ?_
    exact bind_ne_error (toFloat_ne_attributeError _) fun _ => nofun
  | _ => exact nofun

theorem skipUnreadable_readSummary (summary : Json) :
    skipUnreadable (readSummary summary) = .ok (readSummary summary).toOption := by
  have hnot := readSummary_ne_attributeError summary
  cases h : readSummary summary with
  | ok head => rfl
  | error e => cases e <;> first | rfl | exact absurd h hnot

theorem summaryMatches_of_not_readable (filter : MatchFilter) {summary : Json}
    (h : readableSummary summary = false) : summaryMatches filter summary = .ok [] := by
  unfold readableSummary at h
  cases hread : readSummary summary with
  | ok head => simp [hread] at h
  | error e =>
    rw [summaryMatches, skipUnreadable_readSummary, hread]
    rfl

/-- A summary that can be read is a dictionary. -/
theorem get_of_readable {summary : Json} (h : readableSummary summary = true) :
    ∃ members, summary = .dict members := by
  cases summary with
  | dict members => exact ⟨members, rfl⟩
  | _ => cases h

theorem summaryMatches_of_head (filter : MatchFilter) {summary : Json} {head : SummaryHead}
    (h : readSummary summary = .ok head) : summaryMatches filter summary =
      (uncaught (summaryRows summary).iter >>= fun rows =>
        .ok (rows.filterMap (acceptRow filter head))) := by
  obtain ⟨members, rfl⟩ := get_of_readable (show readableSummary summary = true by rw [readableSummary, h])
  simp only [summaryMatches, h, skipUnreadable, ok_bind]
  rfl

/-- The rows of a summary that can be read, when they are iterable. -/
theorem summaryMatches_of_readable (filter : MatchFilter) {summary : Json} {head : SummaryHead}
    (h : readSummary summary = .ok head) {ms : List FunctionMatch} :
    summaryMatches filter summary = .ok ms ↔ iterable (summaryRows summary) = true ∧
      ms = (elements (summaryRows summary)).filterMap (acceptRow filter head) := by
  rw [summaryMatches_of_head filter h]
  cases hiter : uncaught (summaryRows summary).iter with
  | ok rows =>
    obtain ⟨hiterable, rfl⟩ := uncaught_iter_eq_ok_iff.1 hiter
    rw [ok_bind, Except.ok.injEq, eq_comm]
    exact ⟨fun hms => ⟨hiterable, hms⟩, fun hms => hms.2⟩
  | error e =>
    refine ⟨fun hms => absurd hms nofun, fun ⟨hiterable, _⟩ => ?_⟩
    rw [iter_eq_elements hiterable] at hiter
    cases hiter

/-! ## Rows that cannot be read -/

theorem acceptRow_of_not_readable (filter : MatchFilter) (head : SummaryHead) {raw : Json}
    (h : readableRow raw = false) : acceptRow filter head raw = none := by
  unfold readableRow at h
  cases raw with
  | list row =>
    simp only [acceptRow]
    split_ifs with hlength
    · rfl
    · rfl
    · cases hread : readRow row with
      | ok numbers =>
        simp only [hread, Bool.and_true, decide_eq_false_iff_not] at h
        omega
      | error e => rfl
  | _ => rfl

theorem filterMap_acceptRow_readable (filter : MatchFilter) (head : SummaryHead) (rows : List Json) :
    (rows.filter readableRow).filterMap (acceptRow filter head) = rows.filterMap (acceptRow filter head) := by
  rw [List.filterMap_filter]
  refine List.filterMap_congr fun raw _ => ?_
  split_ifs with hraw
  · rfl
  · exact (acceptRow_of_not_readable filter head (Bool.not_eq_true _ ▸ hraw)).symm

/-- A dictionary in which one key has another value. -/
theorem lookup_mapMember (key : String) (f : Json → Json) (members : List (String × Json)) (k : String) :
    (members.map fun m => if m.1 = key then (key, f m.2) else m).lookup k =
      if k = key then (members.lookup k).map f else members.lookup k := by
  induction members with
  | nil => split_ifs <;> rfl
  | cons m members ih =>
    obtain ⟨j, v⟩ := m
    rw [List.map_cons]
    by_cases hj : j = key
    · subst hj
      by_cases hk : k = j
      · simp [hk]
      · have hb : (k == j) = false := by simpa using hk
        simp only [if_true, List.lookup_cons, hb, ih, if_neg hk]
    · by_cases hk : k = j
      · subst hk
        simp [hj]
      · have hb : (k == j) = false := by simpa using hk
        simp only [if_neg hj, List.lookup_cons, hb, ih]

theorem lookup_withMember (key : String) (value : Json) (members : List (String × Json)) (k : String) :
    (members.map fun m => if m.1 = key then (key, value) else m).lookup k =
      if k = key then (members.lookup k).map fun _ => value else members.lookup k :=
  lookup_mapMember key (fun _ => value) members k

theorem readSummary_withMember (value summary : Json) :
    readSummary (withMember "matches" value summary) = readSummary summary := by
  cases summary with
  | dict members =>
    have hoffset : ("offset" : String) ≠ "matches" := by decide
    have hfid : ("fid" : String) ≠ "matches" := by decide
    have hbytes : ("num_bytes" : String) ≠ "matches" := by decide
    simp only [withMember, readSummary, Json.getItem, Json.get, lookup_withMember, if_neg hoffset,
      if_neg hfid, if_neg hbytes]
  | _ => rfl

theorem elements_summaryRows_withMember (members : List (String × Json)) (rows : List Json)
    (hrows : elements (summaryRows (.dict members)) = [] → rows = []) :
    iterable (summaryRows (withMember "matches" (.list rows) (.dict members))) = true ∧
      elements (summaryRows (withMember "matches" (.list rows) (.dict members))) = rows := by
  have hlist : (Json.list rows).orElse (.list []) = .list rows := list_orElse rows
  simp only [withMember, summaryRows, Json.get, lookup_withMember, if_true]
  cases hfound : members.lookup "matches" with
  | none =>
    have hnone : summaryRows (.dict members) = .list [] := by
      simp only [summaryRows, Json.get, hfound]
      rfl
    rw [hnone] at hrows
    rw [hrows rfl]
    exact ⟨rfl, rfl⟩
  | some value =>
    simp only [Option.map_some, Option.getD_some, hlist]
    exact ⟨rfl, rfl⟩

/-- A summary gives the same matches without the rows that cannot be read. -/
theorem summaryMatches_readableRows (filter : MatchFilter) {summary : Json} {ms : List FunctionMatch}
    (hreadable : readableSummary summary = true) (h : summaryMatches filter summary = .ok ms) :
    summaryMatches filter (readableRows summary) = .ok ms := by
  obtain ⟨members, rfl⟩ := get_of_readable hreadable
  cases hread : readSummary (.dict members) with
  | error e => simp [readableSummary, hread] at hreadable
  | ok head =>
    obtain ⟨-, rfl⟩ := (summaryMatches_of_readable filter hread).1 h
    have hread' : readSummary (readableRows (.dict members)) = .ok head :=
      (readSummary_withMember _ _).trans hread
    obtain ⟨hiterable, helements⟩ := elements_summaryRows_withMember members
      ((elements (summaryRows (.dict members))).filter readableRow) fun hnil => by rw [hnil]; rfl
    refine (summaryMatches_of_readable filter hread').2 ⟨hiterable, ?_⟩
    show _ = (elements (summaryRows (withMember _ _ _))).filterMap _
    rw [helements, filterMap_acceptRow_readable]

/-! ## Payloads -/

theorem acceptedMatches_readable (filter : MatchFilter) {summaries : List Json} {ms : List FunctionMatch}
    (h : acceptedMatches filter summaries = .ok ms) :
    acceptedMatches filter ((summaries.filter readableSummary).map readableRows) = .ok ms := by
  induction summaries generalizing ms with
  | nil => exact h
  | cons summary summaries ih =>
    simp only [acceptedMatches] at h
    cases hfirst : summaryMatches filter summary with
    | error e =>
      rw [hfirst] at h
      cases h
    | ok first =>
      cases hrest : acceptedMatches filter summaries with
      | error e =>
        rw [hfirst, hrest] at h
        cases h
      | ok rest =>
        rw [hfirst, hrest] at h
        cases h
        by_cases hreadable : readableSummary summary = true
        · rw [List.filter_cons_of_pos hreadable, List.map_cons]
          simp only [acceptedMatches, summaryMatches_readableRows filter hreadable hfirst, ih hrest]
          rfl
        · rw [Bool.not_eq_true] at hreadable
          rw [summaryMatches_of_not_readable filter hreadable] at hfirst
          cases hfirst
          rw [List.filter_cons_of_neg (by simp [hreadable])]
          exact ih hrest

/-- The accepted rows exist when the rows of every summary that can be read are iterable. -/
theorem acceptedMatches_eq_ok_iff (filter : MatchFilter) (summaries : List Json) :
    (∃ ms, acceptedMatches filter summaries = .ok ms) ↔
      ∀ summary ∈ summaries, readableSummary summary = true → iterable (summaryRows summary) = true := by
  induction summaries with
  | nil => exact iff_of_true ⟨[], rfl⟩ (List.forall_mem_nil _)
  | cons summary summaries ih =>
    rw [List.forall_mem_cons, ← ih]
    have hsummary : (∃ ms, summaryMatches filter summary = .ok ms) ↔
        (readableSummary summary = true → iterable (summaryRows summary) = true) := by
      cases hread : readSummary summary with
      | ok head =>
        have hreadable : readableSummary summary = true := by rw [readableSummary, hread]
        simp only [summaryMatches_of_readable filter hread, hreadable, true_imp_iff]
        constructor
        · rintro ⟨_, hiterable, _⟩
          exact hiterable
        · intro hiterable
          exact ⟨_, hiterable, rfl⟩
      | error e =>
        have hreadable : readableSummary summary = false := by rw [readableSummary, hread]
        rw [summaryMatches_of_not_readable filter hreadable, hreadable]
        exact iff_of_true ⟨[], rfl⟩ fun h => absurd h Bool.false_ne_true
    rw [← hsummary]
    simp only [acceptedMatches]
    cases summaryMatches filter summary with
    | error e =>
      constructor
      · rintro ⟨ms, h⟩
        cases h
      · rintro ⟨⟨ms, h⟩, -⟩
        cases h
    | ok first =>
      cases acceptedMatches filter summaries with
      | error e =>
        constructor
        · rintro ⟨ms, h⟩
          cases h
        · rintro ⟨-, ms, h⟩
          cases h
      | ok rest => exact ⟨fun _ => ⟨⟨first, rfl⟩, ⟨rest, rfl⟩⟩, fun _ => ⟨first ++ rest, rfl⟩⟩

/-- The matches selected from accepted rows. -/
def selectMatches (filter : MatchFilter) (accepted : List FunctionMatch) : List FunctionMatch :=
  (accepted.foldl addToGroup .empty).values.flatMap (selectGroup (max 1 filter.maxResults))

theorem parseVsResult_eq_ok_iff {payload : Json} {filter : MatchFilter} {matched : List FunctionMatch} :
    parseVsResult payload filter = .ok matched ↔ iterable (payloadFunctions payload) = true ∧
      ∃ ms, acceptedMatches filter (elements (payloadFunctions payload)) = .ok ms ∧
        matched = selectMatches filter ms := by
  unfold parseVsResult
  cases hiter : uncaught (payloadFunctions payload).iter with
  | error e =>
    refine ⟨fun h => absurd h nofun, fun ⟨hiterable, _⟩ => ?_⟩
    rw [iter_eq_elements hiterable] at hiter
    cases hiter
  | ok summaries =>
    obtain ⟨hiterable, rfl⟩ := uncaught_iter_eq_ok_iff.1 hiter
    rw [ok_bind]
    cases acceptedMatches filter (elements (payloadFunctions payload)) with
    | error e => exact ⟨fun h => absurd h nofun, fun ⟨_, _, h, _⟩ => absurd h nofun⟩
    | ok ms =>
      constructor
      · intro h
        cases h
        exact ⟨hiterable, ms, rfl, rfl⟩
      · rintro ⟨-, ms', h, rfl⟩
        cases h
        rfl

theorem parseVsResult_readablePart {payload : Json} {filter : MatchFilter} {matched : List FunctionMatch}
    (h : parseVsResult payload filter = .ok matched) :
    parseVsResult (readablePart payload) filter = .ok matched := by
  obtain ⟨-, ms, hms, rfl⟩ := parseVsResult_eq_ok_iff.1 h
  have hfunctions : payloadFunctions (readablePart payload) =
      .list (((elements (payloadFunctions payload)).filter readableSummary).map readableRows) := by
    unfold readablePart
    generalize ((elements (payloadFunctions payload)).filter readableSummary).map readableRows = summaries
    have hrows : payloadFunctions (.dict [("matches", .dict [("functions", .list summaries)])]) =
        (Json.list summaries).orElse (.list []) := by
      simp only [payloadFunctions, List.lookup_cons, beq_self_eq_true, Option.getD_some]
    exact hrows.trans (list_orElse summaries)
  refine parseVsResult_eq_ok_iff.2 ?_
  rw [hfunctions]
  exact ⟨rfl, ms, acceptedMatches_readable filter hms, rfl⟩

/-! ## Matches -/

theorem acceptRow_passes {filter : MatchFilter} {head : SummaryHead} {raw : Json} {m : FunctionMatch}
    (h : acceptRow filter head raw = some m) : filter.minScore ≤ m.score ∧
      (filter.includeLibrary = true ∨ hasFlag m.flags isLibraryFlag = false) ∧
        ∀ sample, filter.targetSampleId = some sample → m.targetSampleId = sample := by
  cases raw with
  | list row =>
    simp only [acceptRow] at h
    split_ifs at h with hlength hlibrary
    split at h
    · next score fid sample family hread =>
      split_ifs at h with hmin hsample
      cases h
      refine ⟨not_lt.1 hmin, ?_, fun wanted hwanted => ?_⟩
      · rw [not_and_or, not_not, Bool.not_eq_true] at hlibrary
        exact hlibrary
      · rw [hwanted] at hsample
        simp only [Option.any_some, decide_eq_true_eq, not_not] at hsample
        exact hsample.symm
    · cases h
  | _ => cases h

theorem acceptedMatches_passes {filter : MatchFilter} {summaries : List Json} {ms : List FunctionMatch}
    (h : acceptedMatches filter summaries = .ok ms) {m : FunctionMatch} (hm : m ∈ ms) :
    ∃ head raw, acceptRow filter head raw = some m := by
  induction summaries generalizing ms with
  | nil =>
    cases h
    cases hm
  | cons summary summaries ih =>
    simp only [acceptedMatches] at h
    cases hfirst : summaryMatches filter summary with
    | error e =>
      rw [hfirst] at h
      cases h
    | ok first =>
      cases hrest : acceptedMatches filter summaries with
      | error e =>
        rw [hfirst, hrest] at h
        cases h
      | ok rest =>
        rw [hfirst, hrest] at h
        cases h
        rcases List.mem_append.1 hm with hm | hm
        · cases hread : readSummary summary with
          | ok head =>
            obtain ⟨-, rfl⟩ := (summaryMatches_of_readable filter hread).1 hfirst
            obtain ⟨raw, -, hraw⟩ := List.mem_filterMap.1 hm
            exact ⟨head, raw, hraw⟩
          | error e =>
            rw [summaryMatches_of_not_readable filter (by rw [readableSummary, hread])] at hfirst
            cases hfirst
            cases hm
        · exact ih hrest hm

theorem length_selectGroup_le (limit : ℤ) (group : List FunctionMatch) :
    (selectGroup limit group).length ≤ limit.toNat := by
  rw [selectGroup, List.length_map, List.length_take]
  exact min_le_left _ _

/-- Groups of different offsets do not share the cap. -/
theorem selectMatches_capped (filter : MatchFilter) (ms : List FunctionMatch) (offset : ℤ) :
    (((selectMatches filter ms).filter fun m => m.sourceOffset = offset).length : ℤ) ≤
      max 1 filter.maxResults := by
  have hpos : 0 ≤ max 1 filter.maxResults := le_trans zero_le_one (le_max_left _ _)
  rw [selectMatches, values_groups, List.flatMap_map, OrderedMap.filter_flatMap_key
    (OrderedMap.nodup_eraseDups_map _ _) (fun o m hm => sourceOffset_of_mem_selectGroup hm)]
  split_ifs
  · have hlength := length_selectGroup_le (max 1 filter.maxResults) (ms.filter fun m => m.sourceOffset = offset)
    omega
  · exact hpos

theorem selectMatches_passes {filter : MatchFilter} {summaries : List Json} {ms : List FunctionMatch}
    (h : acceptedMatches filter summaries = .ok ms) {m : FunctionMatch} (hm : m ∈ selectMatches filter ms) :
    filter.minScore ≤ m.score ∧
      (filter.includeLibrary = true ∨ hasFlag m.flags isLibraryFlag = false) ∧
        ∀ sample, filter.targetSampleId = some sample → m.targetSampleId = sample := by
  rw [selectMatches, values_groups, List.flatMap_map] at hm
  obtain ⟨o, -, hm⟩ := List.mem_flatMap.1 hm
  obtain ⟨m', hm', count, stats, rfl⟩ := mem_selectGroup hm
  obtain ⟨head, raw, hraw⟩ := acceptedMatches_passes h (List.mem_filter.1 hm').1
  have hpasses := acceptRow_passes hraw
  exact hpasses

/-- Parsing is safe exactly when every container that it goes through is iterable, missing or empty. -/
theorem parsesSafely_iff (payload : Json) (filter : MatchFilter) :
    ParsesSafely payload filter ↔ Iterates payload := by
  constructor
  · rintro ⟨matched, hparse, -⟩
    obtain ⟨hiterable, ms, hms, -⟩ := parseVsResult_eq_ok_iff.1 hparse
    exact ⟨hiterable, (acceptedMatches_eq_ok_iff filter _).1 ⟨ms, hms⟩⟩
  · rintro ⟨hiterable, hsummaries⟩
    obtain ⟨ms, hms⟩ := (acceptedMatches_eq_ok_iff filter _).2 hsummaries
    have hparse : parseVsResult payload filter = .ok (selectMatches filter ms) :=
      parseVsResult_eq_ok_iff.2 ⟨hiterable, ms, hms, rfl⟩
    exact ⟨_, hparse, fun m hm => selectMatches_passes hms hm, selectMatches_capped filter ms,
      parseVsResult_readablePart hparse⟩

/-- A number in place of the list of functions. -/
def numberForFunctions : Json := .dict [("matches", .dict [("functions", .int 1)])]

theorem not_parsesSafely : ¬ ∀ payload filter, ParsesSafely payload filter := by
  intro h
  obtain ⟨matched, hparse, -⟩ := h numberForFunctions ⟨0, true, 5, none⟩
  have hraises : parseVsResult numberForFunctions ⟨0, true, 5, none⟩ = .error (.builtin .typeError) := rfl
  rw [hraises] at hparse
  cases hparse

end McritSimilarity

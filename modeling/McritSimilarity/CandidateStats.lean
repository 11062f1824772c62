import McritSimilarity.Lib.TopTwo
import McritSimilarity.Mapping
import McritSimilarity.Payload

/-!
# Statistics of candidates

The margin of a match is its lead over the strongest of all other accepted candidates of its source
offset, kept or not, and its `pichashCandidates` counts all of them with the flag.  `GroupStats` finds the
two top scores in one pass over candidates that are sorted by another key, and `margin_withStats` is where
this comes together.
-/

set_option autoImplicit false

namespace McritSimilarity

open Python

/-! ## Candidates -/

/-- The accepted candidates of a source offset. -/
def candidates (filter : MatchFilter) (p : List Summary) (offset : ℤ) : List Hit :=
  (accepted filter p).filter fun h => h.sourceOffset = offset

/-- The other accepted candidates of its source offset. -/
def rivals (filter : MatchFilter) (p : List Summary) (h : Hit) : List Hit :=
  (candidates filter p h.sourceOffset).erase h

/-- The `similarity` of a match's pair. -/
def FunctionMatch.similarity (m : FunctionMatch) : ℤ :=
  if m.isPichash then 255 else similarityFromMinhash m.score

/-- The `confidence` of a match's pair. -/
def FunctionMatch.confidence (m : FunctionMatch) : ℤ :=
  confidenceFromMatch m.score m.flags m.numBytes m.margin m.pichashCandidates

theorem matchPair_similarity (m : FunctionMatch) (targetOffset : ℤ) (source target : Entity) :
    (matchPair m targetOffset source target).similarity = m.similarity := rfl

theorem matchPair_confidence (m : FunctionMatch) (targetOffset : ℤ) (source target : Entity) :
    (matchPair m targetOffset source target).confidence = m.confidence := rfl

/-! ## The pass over a group -/

/-- A value without one occurrence is the same before and after a map. -/
theorem map_erase_perm {α β : Type} [DecidableEq α] [DecidableEq β] (f : α → β) {a : α} {l : List α} (h : a ∈ l) :
    ((l.erase a).map f).Perm ((l.map f).erase (f a)) := by
  have hperm : (l.map f).Perm (f a :: (l.erase a).map f) := (List.perm_cons_erase h).map f
  have herase := hperm.erase (f a)
  rw [List.erase_cons_head] at herase
  exact herase.symm

namespace GroupStats

theorem top_add (stats : GroupStats) (m : FunctionMatch) :
    ((stats.add m).bestScore, (stats.add m).runnerUpScore) =
      List.addToTop (stats.bestScore, stats.runnerUpScore) m.score := by
  unfold add List.addToTop
  simp only
  split_ifs <;> rfl

theorem pichash_add (stats : GroupStats) (m : FunctionMatch) :
    (stats.add m).pichashCandidates = stats.pichashCandidates + if m.isPichash then 1 else 0 := by
  unfold add
  simp only
  split_ifs <;> rfl

theorem top_foldl (ms : List FunctionMatch) (stats : GroupStats) :
    ((ms.foldl add stats).bestScore, (ms.foldl add stats).runnerUpScore) =
      (ms.map FunctionMatch.score).foldl List.addToTop (stats.bestScore, stats.runnerUpScore) := by
  induction ms generalizing stats with
  | nil => rfl
  | cons m ms ih =>
    rw [List.foldl_cons, ih, top_add, List.map_cons, List.foldl_cons]

theorem pichash_foldl (ms : List FunctionMatch) (stats : GroupStats) :
    (ms.foldl add stats).pichashCandidates = stats.pichashCandidates + ms.countP FunctionMatch.isPichash := by
  induction ms generalizing stats with
  | nil => rfl
  | cons m ms ih =>
    rw [List.foldl_cons, ih, pichash_add, List.countP_cons]
    omega

end GroupStats

/-- The margin is the lead over the strongest other score. -/
theorem margin_withStats {ms : List FunctionMatch} {m : FunctionMatch} (hm : m ∈ ms) :
    (withStats ms.length (ms.foldl GroupStats.add {}) m).margin =
      ((ms.map FunctionMatch.score).erase m.score).max?.map fun best => m.score - best := by
  have hscore : m.score ∈ ms.map FunctionMatch.score := List.mem_map_of_mem hm
  have htop := GroupStats.top_foldl ms {}
  have hlength : ((ms.map FunctionMatch.score).erase m.score).length = ms.length - 1 := by
    rw [List.length_erase_of_mem hscore, List.length_map]
  unfold FunctionMatch.margin withStats
  simp only
  split_ifs with hfew
  · have hnil : (ms.map FunctionMatch.score).erase m.score = [] := by
      rw [← List.length_eq_zero_iff, hlength]
      omega
    rw [hnil]
    rfl
  · obtain ⟨hbest, hrunnerUp⟩ := Prod.mk.inj htop
    obtain ⟨best, hmax⟩ := Option.isSome_iff_exists.1 (List.isSome_max?_of_mem hscore)
    have htopBest : (ms.map FunctionMatch.score).topTwo.1 = some best := by
      rw [List.topTwo_eq]
      exact hmax
    have hbestMem : best ∈ ms.map FunctionMatch.score := (List.max?_eq_some_iff.1 hmax).1
    have hpos : 0 < ((ms.map FunctionMatch.score).erase best).length := by
      rw [List.length_erase_of_mem hbestMem, List.length_map]
      omega
    obtain ⟨runnerUp, hsecond⟩ := Option.isSome_iff_exists.1
      (List.isSome_max?_of_ne_nil (List.ne_nil_of_length_pos hpos))
    have htopSecond : (ms.map FunctionMatch.score).topTwo.2 = some runnerUp := by
      rw [List.topTwo_eq, hmax]
      exact hsecond
    have hrival := List.rival_topTwo hscore htopBest
    rw [htopSecond] at hrival
    rw [hbest.trans htopBest, hrunnerUp.trans htopSecond, ← hrival]
    split_ifs with hle <;> simp [hle]

/-! ## Selected groups -/

/-- A smaller limit keeps the first of the same matches. -/
theorem selectGroup_prefix {limit limit' : ℤ} (h : limit ≤ limit') (group : List FunctionMatch) :
    selectGroup limit group <+: selectGroup limit' group :=
  (List.take_prefix_take_left (Int.toNat_le_toNat h)).map _

section Group

variable {limit : ℤ} {group : List FunctionMatch} {m : FunctionMatch}

theorem hit_mem_of_mem_selectGroup (hm : m ∈ selectGroup limit group) : m.hit ∈ group.map FunctionMatch.hit := by
  obtain ⟨m', hm', rfl⟩ := eq_withStats_of_mem hm
  exact List.mem_map.2 ⟨m', (List.mem_insertionSort ranksLe).1 hm', rfl⟩

theorem margin_selectGroup (hm : m ∈ selectGroup limit group) :
    m.margin = ((((group.map FunctionMatch.hit).erase m.hit).map Hit.score).max?.map
      fun best => m.score - best) := by
  have hhit := hit_mem_of_mem_selectGroup hm
  obtain ⟨m', hm', rfl⟩ := eq_withStats_of_mem hm
  rw [margin_withStats hm']
  have hsort := (List.perm_insertionSort ranksLe group).map FunctionMatch.score
  have hscores : (group.map FunctionMatch.hit).map Hit.score = group.map FunctionMatch.score := by
    rw [List.map_map]
    rfl
  have hother := map_erase_perm Hit.score hhit
  rw [hscores] at hother
  rw [(hsort.erase _).max?_eq, hother.max?_eq]
  rfl

theorem pichash_selectGroup (hm : m ∈ selectGroup limit group) :
    m.pichashCandidates = (group.map FunctionMatch.hit).countP Hit.isPichash := by
  obtain ⟨m', -, rfl⟩ := eq_withStats_of_mem hm
  have hcount := GroupStats.pichash_foldl (group.insertionSort ranksLe) {}
  rw [(List.perm_insertionSort ranksLe group).countP_eq] at hcount
  rw [List.countP_map]
  exact hcount.trans (Nat.zero_add _)

end Group

/-! ## Margins and confidence -/

/-- What a match says of the other candidates. -/
structure ReflectsRivals (filter : MatchFilter) (p : List Summary) (m : FunctionMatch) : Prop where
  candidate : m.hit ∈ candidates filter p m.sourceOffset
  margin : m.margin = ((rivals filter p m.hit).map Hit.score).max?.map fun best => m.score - best
  pichash : m.pichashCandidates = (candidates filter p m.sourceOffset).countP Hit.isPichash
  tied : m.isPichash = false → (∃ r ∈ rivals filter p m.hit, m.score ≤ r.score) → m.confidence ≤ 128
  pichashConfidence : m.isPichash = true →
    m.confidence = if ∀ r ∈ rivals filter p m.hit, r.isPichash = false then 255 else 128

theorem reflectsRivals_of {filter : MatchFilter} {p : List Summary} {m : FunctionMatch}
    (hcandidate : m.hit ∈ candidates filter p m.sourceOffset)
    (hmargin : m.margin = ((rivals filter p m.hit).map Hit.score).max?.map fun best => m.score - best)
    (hpichash : m.pichashCandidates = (candidates filter p m.sourceOffset).countP Hit.isPichash) :
    ReflectsRivals filter p m where
  candidate := hcandidate
  margin := hmargin
  pichash := hpichash
  tied := by
    rintro hflag ⟨r, hr, hscore⟩
    obtain ⟨best, hbest⟩ := Option.isSome_iff_exists.1
      (List.isSome_max?_of_mem (List.mem_map_of_mem (f := Hit.score) hr))
    have hle : r.score ≤ best := (List.max?_eq_some_iff.1 hbest).2 _ (List.mem_map_of_mem hr)
    rw [hbest, Option.map_some] at hmargin
    rw [FunctionMatch.confidence, hmargin]
    exact confidence_le_of_tied _ _ hflag (by linarith)
  pichashConfidence := by
    intro hflag
    have hcount : m.pichashCandidates = (rivals filter p m.hit).countP Hit.isPichash + 1 := by
      have hhit : m.hit.isPichash = true := hflag
      rw [hpichash, (List.perm_cons_erase hcandidate).countP_eq, List.countP_cons, if_pos hhit]
      rfl
    have hsole : m.pichashCandidates ≤ 1 ↔ ∀ r ∈ rivals filter p m.hit, r.isPichash = false := by
      have hzero : m.pichashCandidates ≤ 1 ↔ (rivals filter p m.hit).countP Hit.isPichash = 0 := by omega
      rw [hzero, List.countP_eq_zero]
      simp only [Bool.not_eq_true]
    have hflags : hasFlag m.flags isPichashFlag = true := hflag
    rw [FunctionMatch.confidence, confidenceFromMatch, hflags, if_pos rfl]
    exact if_congr hsole rfl rfl

/-- The selected matches of a well-shaped payload by source offset, for every `max_results`. -/
theorem parseVsResult_filter (filter : MatchFilter) {payload : Json} {p : List Summary}
    (h : PayloadJson payload p) : ∃ group : ℤ → List FunctionMatch,
      (∀ offset, (group offset).map FunctionMatch.hit = candidates filter p offset) ∧
      (∀ offset, ∀ m ∈ group offset, m.Parsed) ∧ ∀ maxResults, ∃ ms,
        parseVsResult payload { filter with maxResults := maxResults } = .ok ms ∧
          (∀ m ∈ ms, m ∈ selectGroup (max 1 maxResults) (group m.sourceOffset)) ∧
          ∀ offset, (ms.filter fun m => m.sourceOffset = offset) = selectGroup (max 1 maxResults) (group offset) := by
  obtain ⟨ms, hhits, hparsed, hparse⟩ := parseVsResult_groups filter h
  have hcandidates : ∀ offset, (ms.filter fun m => m.sourceOffset = offset).map FunctionMatch.hit =
      candidates filter p offset := by
    intro offset
    rw [hit_filter_sourceOffset, hhits, candidates]
  refine ⟨fun offset => ms.filter fun m => m.sourceOffset = offset, hcandidates,
    fun offset m hm => hparsed m (List.mem_filter.1 hm).1, fun maxResults => ⟨_, hparse maxResults, fun m hm => ?_,
      fun offset => ?_⟩⟩
  · obtain ⟨offset, -, hm⟩ := List.mem_flatMap.1 hm
    rwa [sourceOffset_of_mem_selectGroup hm]
  · rw [OrderedMap.filter_flatMap_key (OrderedMap.nodup_eraseDups_map _ _)
      fun _ _ hm => sourceOffset_of_mem_selectGroup hm]
    split_ifs with hmem
    · rfl
    · have hnil : (ms.filter fun m => m.sourceOffset = offset) = [] := by
        refine List.filter_eq_nil_iff.2 fun m hm ho => hmem (List.mem_eraseDups.2 ?_)
        exact List.mem_map.2 ⟨m, hm, of_decide_eq_true ho⟩
      show [] = selectGroup (max 1 maxResults) (ms.filter fun m => m.sourceOffset = offset)
      rw [hnil, selectGroup, List.insertionSort_nil, List.take_nil, List.map_nil]

/-- Every match of a well-shaped payload reflects all its rivals, in whatever order the rows come and
however many candidates are kept; keeping more only adds matches. -/
theorem confidenceReflectsRivals {payload : Json} {p : List Summary} (h : PayloadJson payload p)
    (filter : MatchFilter) : ∃ ms, parseVsResult payload filter = .ok ms ∧
      (∀ m ∈ ms, ReflectsRivals filter p m) ∧
      (∀ payload' p', PayloadJson payload' p' → (accepted filter p').Perm (accepted filter p) →
        ∃ ms', parseVsResult payload' filter = .ok ms' ∧ ∀ m ∈ ms, ∀ m' ∈ ms', m'.hit = m.hit →
          m'.margin = m.margin ∧ m'.pichashCandidates = m.pichashCandidates) ∧
      ∀ maxResults, filter.maxResults ≤ maxResults → ∃ ms',
        parseVsResult payload { filter with maxResults := maxResults } = .ok ms' ∧
          ∀ offset, (ms.filter fun m => m.sourceOffset = offset) <+: ms'.filter fun m => m.sourceOffset = offset := by
  have hreflects : ∀ {payload p}, PayloadJson payload p → ∃ ms, parseVsResult payload filter = .ok ms ∧
      ∀ m ∈ ms, ReflectsRivals filter p m := by
    intro payload p h
    obtain ⟨group, hgroup, -, hparse⟩ := parseVsResult_filter filter h
    obtain ⟨ms, hms, hmem, -⟩ := hparse filter.maxResults
    refine ⟨ms, hms, fun m hm => reflectsRivals_of ?_ ?_ ?_⟩
    · rw [← hgroup]
      exact hit_mem_of_mem_selectGroup (hmem m hm)
    · rw [margin_selectGroup (hmem m hm), hgroup]
      rfl
    · rw [pichash_selectGroup (hmem m hm), hgroup]
  obtain ⟨group, hgroup, -, hparse⟩ := parseVsResult_filter filter h
  obtain ⟨ms, hms, hreflect⟩ := hreflects h
  refine ⟨ms, hms, hreflect, fun payload' p' h' hperm => ?_, fun maxResults hmax => ?_⟩
  · obtain ⟨ms', hms', hreflect'⟩ := hreflects h'
    refine ⟨ms', hms', fun m hm m' hm' hhit => ?_⟩
    have hscore : m'.score = m.score := congrArg Hit.score hhit
    have hoffset : m'.sourceOffset = m.sourceOffset := congrArg Hit.sourceOffset hhit
    have hcandidates : ∀ offset, (candidates filter p' offset).Perm (candidates filter p offset) :=
      fun offset => hperm.filter _
    have hrivals : ((rivals filter p' m.hit).map Hit.score).Perm ((rivals filter p m.hit).map Hit.score) :=
      ((hcandidates _).erase _).map _
    rw [(hreflect m hm).margin, (hreflect' m' hm').margin, (hreflect m hm).pichash, (hreflect' m' hm').pichash,
      hhit, hscore, hoffset, hrivals.max?_eq, (hcandidates _).countP_eq]
    exact ⟨rfl, rfl⟩
  · obtain ⟨ms₁, hms₁, -, hfilter₁⟩ := hparse filter.maxResults
    obtain ⟨ms', hms', -, hfilter'⟩ := hparse maxResults
    obtain rfl : ms = ms₁ := Except.ok.inj (hms.symm.trans hms₁)
    refine ⟨ms', hms', fun offset => ?_⟩
    rw [hfilter₁, hfilter']
    exact selectGroup_prefix (max_le_max le_rfl hmax) _

/-- Two candidates of one function that are tied. -/
def tiedPayload : Json :=
  .dict [("matches", .dict [("functions", .list [.dict [("offset", .int 0x1000), ("fid", .int 1),
    ("num_bytes", .int 64), ("matches", .list [.list [.int 0, .int 9, .int 5, .float (.finite 90), .int 1],
      .list [.int 0, .int 9, .int 6, .float (.finite 90), .int 1]])]])])]

def tiedSummaries : List Summary := [⟨0x1000, 1, 64, [⟨0, 9, 5, .finite 90, 1⟩, ⟨0, 9, 6, .finite 90, 1⟩]⟩]

theorem payloadJson_tiedPayload : PayloadJson tiedPayload tiedSummaries := by
  have hbytes : (Json.int 64).toFloat = .ok (.finite 64) := by decide +kernel
  exact .mk rfl rfl (.cons (.mk rfl rfl rfl rfl hbytes rfl
    (.cons (.mk rfl rfl rfl rfl (.int 1 [])) (.cons (.mk rfl rfl rfl rfl (.int 1 [])) .nil))) .nil)

theorem confidenceReflectsRivals_tiedPayload : ∃ ms, parseVsResult tiedPayload ⟨50, true, 1, none⟩ = .ok ms ∧
    ∀ m ∈ ms, ReflectsRivals ⟨50, true, 1, none⟩ tiedSummaries m := by
  obtain ⟨ms, hms, hreflect, -⟩ := confidenceReflectsRivals payloadJson_tiedPayload ⟨50, true, 1, none⟩
  exact ⟨ms, hms, hreflect⟩

end McritSimilarity

import McritSimilarity.CandidateStats

/-!
# Ranked candidates

Candidates are ranked by their flag, score and size, their pairs by similarity and confidence.  With scores
up to 100, and 100 for a PicHash match, the two agree: no candidate of a source offset makes a better pair
than one that is ranked before it, so none that is dropped makes a better pair than one that is kept.
-/

set_option autoImplicit false

namespace McritSimilarity

open Python

/-! ## The order of candidates -/

instance : Std.Total hitLe where
  total a b := by
    unfold hitLe
    cases a.isPichash <;> cases b.isPichash <;> simp
    all_goals
      rcases lt_trichotomy a.score b.score with h | h | h
      · simp [h]
      · simp [h, le_total]
      · simp [h]

instance : IsTrans Hit hitLe where
  trans a b c := by
    rintro (⟨ha, hb⟩ | ⟨hab, hscore⟩) (⟨hb', hc⟩ | ⟨hbc, hscore'⟩)
    · exact Or.inl ⟨ha, hc⟩
    · exact Or.inl ⟨ha, hbc.symm.trans hb⟩
    · exact Or.inl ⟨hab.trans hb', hc⟩
    · refine Or.inr ⟨hab.trans hbc, ?_⟩
      rcases hscore with hlt | ⟨heq, hbytes⟩ <;> rcases hscore' with hlt' | ⟨heq', hbytes'⟩
      · exact Or.inl (hlt'.trans hlt)
      · exact Or.inl (heq' ▸ hlt)
      · exact Or.inl (heq ▸ hlt')
      · exact Or.inr ⟨heq.trans heq', hbytes'.trans hbytes⟩

/-- The candidates of a group are sorted by what the payload says of them. -/
theorem pairwise_hits {group : List FunctionMatch} (h : ∀ m ∈ group, m.Parsed) :
    (group.insertionSort ranksLe).Pairwise fun a b => hitLe a.hit b.hit := by
  have hsort : (group.insertionSort ranksLe).map FunctionMatch.hit =
      (group.map FunctionMatch.hit).insertionSort hitLe :=
    List.map_insertionSort ranksLe hitLe _ _ fun a ha b hb => ranksLe_iff (h a ha) (h b hb)
  rw [← List.pairwise_map, hsort]
  exact List.pairwise_insertionSort hitLe _

/-! ## Leads -/

/-- The higher of two scores leads the other scores by more. -/
theorem lead_mono {x y : ℚ} (rest : List ℚ) (hyx : y ≤ x) : ∃ best best', (y :: rest).max? = some best ∧
    (x :: rest).max? = some best' ∧ x ≤ best' ∧ y - best' ≤ x - best := by
  obtain ⟨best, hbest⟩ := Option.isSome_iff_exists.1 (List.isSome_max?_of_ne_nil (List.cons_ne_nil y rest))
  obtain ⟨best', hbest'⟩ := Option.isSome_iff_exists.1 (List.isSome_max?_of_ne_nil (List.cons_ne_nil x rest))
  obtain ⟨hmem, -⟩ := List.max?_eq_some_iff.1 hbest
  obtain ⟨-, hle'⟩ := List.max?_eq_some_iff.1 hbest'
  have hx : x ≤ best' := hle' x List.mem_cons_self
  have hle : best ≤ best' := by
    rcases List.mem_cons.1 hmem with rfl | hmem
    · exact hyx.trans hx
    · exact hle' best (List.mem_cons_of_mem x hmem)
  refine ⟨best, best', hbest, hbest', hx, ?_⟩
  linarith

/-! ## Pairs -/

/-- The pair of one match is no better than that of another. -/
def PairsNoBetter (b a : FunctionMatch) : Prop :=
  ∀ targetOffset source target,
    (matchPair b targetOffset source target).similarity ≤ (matchPair a targetOffset source target).similarity ∧
      (matchPair b targetOffset source target).confidence ≤ (matchPair a targetOffset source target).confidence

/-- The scores MCRIT sends. -/
structure MatchScores (hits : List Hit) : Prop where
  le : ∀ h ∈ hits, h.score ≤ 100
  pichash : ∀ h ∈ hits, h.isPichash = true → h.score = 100

theorem pairsNoBetter_of {a b : FunctionMatch} (hrank : hitLe a.hit b.hit) (hle : b.score ≤ 100)
    (hfull : a.isPichash = true → a.score = 100) (hcount : b.pichashCandidates = a.pichashCandidates)
    (hbytes : b.numBytes = a.numBytes)
    (hmargins : b.score ≤ a.score → ∃ u v, a.margin = some u ∧ b.margin = some v ∧ v ≤ 0 ∧ v ≤ u) :
    PairsNoBetter b a := by
  intro targetOffset source target
  rw [matchPair_similarity, matchPair_similarity, matchPair_confidence, matchPair_confidence]
  unfold FunctionMatch.similarity FunctionMatch.confidence
  rcases hrank with ⟨ha, hb⟩ | ⟨hflag, hscore⟩
  · -- A PicHash match has the full score, which beats or ties every other.
    have hflagA : a.isPichash = true := ha
    have hflagB : b.isPichash = false := hb
    have hscore : b.score ≤ a.score := by
      rw [hfull hflagA]
      exact hle
    obtain ⟨u, v, -, hv, hv0, -⟩ := hmargins hscore
    have hconfidence : confidenceFromMatch a.score a.flags a.numBytes a.margin a.pichashCandidates =
        if a.pichashCandidates ≤ 1 then 255 else 128 := if_pos hflagA
    rw [hflagA, hflagB, if_pos rfl, if_neg Bool.false_ne_true, hconfidence, hv]
    refine ⟨similarityFromMinhash_le _, ?_⟩
    split_ifs
    · exact confidenceFromMatch_le _ _ _ _ _
    · exact confidence_le_of_tied _ _ hflagB hv0
  · have hflags : a.isPichash = b.isPichash := hflag
    cases hflagA : a.isPichash with
    | true =>
      have hflagB : b.isPichash = true := hflags.symm.trans hflagA
      have hconfidence : ∀ m : FunctionMatch, m.isPichash = true →
          confidenceFromMatch m.score m.flags m.numBytes m.margin m.pichashCandidates =
            if m.pichashCandidates ≤ 1 then 255 else 128 := fun m hm => if_pos hm
      rw [hflagB, hconfidence a hflagA, hconfidence b hflagB, hcount]
      exact ⟨le_rfl, le_rfl⟩
    | false =>
      have hflagB : b.isPichash = false := hflags.symm.trans hflagA
      have hscore : b.score ≤ a.score := by
        rcases hscore with hlt | ⟨heq, -⟩
        · exact hlt.le
        · exact heq.ge
      obtain ⟨u, v, hu, hv, -, hvu⟩ := hmargins hscore
      have hconfidence : ∀ m : FunctionMatch, m.isPichash = false →
          confidenceFromMatch m.score m.flags m.numBytes m.margin m.pichashCandidates =
            clampScore (roundHalfEven
              (similarityFromMinhash m.score * sizeWeight m.numBytes * uniquenessWeight m.margin)) :=
        fun m hm => if_neg (Bool.eq_false_iff.1 hm)
      rw [hflagB, hconfidence a hflagA, hconfidence b hflagB, hu, hv, hbytes]
      refine ⟨similarityFromMinhash_mono hscore, confidence_mono (similarityFromMinhash_nonneg _)
        (similarityFromMinhash_mono hscore) (sizeWeight_nonneg _) (uniquenessWeight_nonneg _)
        (uniquenessWeight_mono hvu)⟩

/-- The margins of two candidates of a list, where the first has the higher score. -/
theorem margins_of_sublist {ranked : List FunctionMatch} {a b : FunctionMatch} (hsub : [a, b].Sublist ranked)
    (hscore : b.score ≤ a.score) : ∃ u v,
      (withStats ranked.length (ranked.foldl GroupStats.add {}) a).margin = some u ∧
        (withStats ranked.length (ranked.foldl GroupStats.add {}) b).margin = some v ∧ v ≤ 0 ∧ v ≤ u := by
  obtain ⟨rest, hrest⟩ := (hsub.map FunctionMatch.score).exists_perm_append
  have hfirst : ((ranked.map FunctionMatch.score).erase a.score).Perm (b.score :: rest) := by
    simpa using hrest.erase a.score
  have hsecond : ((ranked.map FunctionMatch.score).erase b.score).Perm (a.score :: rest) := by
    have hswap := (hrest.trans (List.Perm.swap b.score a.score rest)).erase b.score
    simpa using hswap
  obtain ⟨best, best', hbest, hbest', hle, hlead⟩ := lead_mono rest hscore
  refine ⟨a.score - best, b.score - best', ?_, ?_, by linarith, hlead⟩
  · rw [margin_withStats (hsub.subset List.mem_cons_self), hfirst.max?_eq, hbest]
    rfl
  · rw [margin_withStats (hsub.subset (by simp)), hsecond.max?_eq, hbest']
    rfl

/-- Along the candidates selected from a group, the pairs get no better. -/
theorem pairwise_selectGroup {limit : ℤ} {group : List FunctionMatch} (hparsed : ∀ m ∈ group, m.Parsed)
    (hscores : MatchScores (group.map FunctionMatch.hit))
    (hbytes : ∀ m ∈ group, ∀ m' ∈ group, m'.numBytes = m.numBytes) :
    (selectGroup limit group).Pairwise fun a b => PairsNoBetter b a := by
  have hgroup : ∀ m ∈ group.insertionSort ranksLe, m ∈ group := fun m hm => (List.mem_insertionSort ranksLe).1 hm
  have hall : ((group.insertionSort ranksLe).map (withStats (group.insertionSort ranksLe).length
      ((group.insertionSort ranksLe).foldl GroupStats.add {}))).Pairwise fun a b => PairsNoBetter b a := by
    rw [List.pairwise_map, List.pairwise_iff_forall_sublist]
    intro a b hsub
    have ha := hgroup a (hsub.subset List.mem_cons_self)
    have hb := hgroup b (hsub.subset (by simp))
    have hrank : hitLe a.hit b.hit := List.pairwise_iff_forall_sublist.1 (pairwise_hits hparsed) hsub
    exact pairsNoBetter_of hrank (hscores.le _ (List.mem_map_of_mem hb))
      (hscores.pichash _ (List.mem_map_of_mem ha)) rfl (hbytes a ha b hb)
      fun hscore => margins_of_sublist (a := a) (b := b) hsub hscore
  rw [selectGroup, List.map_take]
  exact hall.sublist (List.take_sublist _ _)

/-- A limit that drops nothing keeps the candidates that any other limit keeps, and then the others. -/
theorem selectGroup_all {limit' : ℤ} {group : List FunctionMatch} (h : (group.length : ℤ) ≤ limit') (limit : ℤ) :
    selectGroup limit group <+: selectGroup limit' group ∧
      ((selectGroup limit' group).map FunctionMatch.hit).Perm (group.map FunctionMatch.hit) := by
  have hall : (group.insertionSort ranksLe).take limit'.toNat = group.insertionSort ranksLe := by
    refine List.take_of_length_le ?_
    rw [List.length_insertionSort]
    omega
  simp only [selectGroup]
  rw [hall, List.map_map]
  exact ⟨(List.take_prefix _ _).map _, (List.perm_insertionSort ranksLe group).map FunctionMatch.hit⟩

/-! ## Payloads -/

/-- The size of a candidate is that of its summary. -/
theorem numBytes_of_mem_candidates {filter : MatchFilter} {p : List Summary} (hnodup : (p.map Summary.offset).Nodup)
    {offset : ℤ} {h h' : Hit} (hh : h ∈ candidates filter p offset) (hh' : h' ∈ candidates filter p offset) :
    h'.numBytes = h.numBytes := by
  have hsummary : ∀ {h : Hit}, h ∈ candidates filter p offset →
      ∃ s ∈ p, s.offset = offset ∧ h.numBytes = s.numBytes := by
    intro h hh
    obtain ⟨hmem, hoffset⟩ := List.mem_filter.1 hh
    obtain ⟨s, hs, hrow⟩ := List.mem_flatMap.1 hmem
    obtain ⟨r, -, hhit⟩ := List.mem_filterMap.1 hrow
    have hfields : h.sourceOffset = s.offset ∧ h.numBytes = s.numBytes := by
      unfold Summary.hit? at hhit
      split at hhit
      · split_ifs at hhit
        cases hhit
        exact ⟨rfl, rfl⟩
      · cases hhit
    exact ⟨s, hs, hfields.1.symm.trans (of_decide_eq_true hoffset), hfields.2⟩
  obtain ⟨s, hs, hoffset, hbytes⟩ := hsummary hh
  obtain ⟨s', hs', hoffset', hbytes'⟩ := hsummary hh'
  obtain rfl : s' = s := List.inj_on_of_nodup_map hnodup hs' hs (hoffset'.trans hoffset.symm)
  exact hbytes'.trans hbytes.symm

/-- The candidates of a source offset make worse and worse pairs, and those that `max_results` drops are the
last of them. -/
theorem ranksAgree {payload : Json} {p : List Summary} (h : PayloadJson payload p) (filter : MatchFilter)
    (hnodup : (p.map Summary.offset).Nodup) (hscores : MatchScores (accepted filter p)) :
    ∃ ms all, parseVsResult payload filter = .ok ms ∧
      parseVsResult payload { filter with maxResults := (accepted filter p).length } = .ok all ∧
      ∀ offset, ∃ dropped, (all.filter fun m => m.sourceOffset = offset) =
          (ms.filter fun m => m.sourceOffset = offset) ++ dropped ∧
        ((all.filter fun m => m.sourceOffset = offset).map FunctionMatch.hit).Perm (candidates filter p offset) ∧
        (all.filter fun m => m.sourceOffset = offset).Pairwise fun a b => PairsNoBetter b a := by
  obtain ⟨group, hgroup, hparsed, hparse⟩ := parseVsResult_filter filter h
  obtain ⟨ms, hms, -, hkept⟩ := hparse filter.maxResults
  obtain ⟨all, hall, -, hfull⟩ := hparse (accepted filter p).length
  refine ⟨ms, all, hms, hall, fun offset => ?_⟩
  have hlength : ((group offset).length : ℤ) ≤ max 1 ((accepted filter p).length : ℤ) := by
    have hle : (candidates filter p offset).length ≤ (accepted filter p).length := List.length_filter_le _ _
    rw [← hgroup, List.length_map] at hle
    omega
  obtain ⟨⟨dropped, hdropped⟩, hperm⟩ := selectGroup_all hlength (max 1 filter.maxResults)
  rw [hfull, hkept]
  refine ⟨dropped, hdropped.symm, ?_, pairwise_selectGroup (hparsed offset) ?_ fun m hm m' hm' => ?_⟩
  · rw [← hgroup]
    exact hperm
  · rw [hgroup]
    exact ⟨fun h hh => hscores.le h (List.mem_filter.1 hh).1, fun h hh => hscores.pichash h (List.mem_filter.1 hh).1⟩
  · have hhit : ∀ m ∈ group offset, m.hit ∈ candidates filter p offset := by
      intro m hm
      rw [← hgroup]
      exact List.mem_map_of_mem hm
    rw [(hparsed offset m hm).numBytes, (hparsed offset m' hm').numBytes,
      numBytes_of_mem_candidates hnodup (hhit m hm) (hhit m' hm')]

theorem ranksAgree_tiedPayload : ∃ ms all, parseVsResult tiedPayload ⟨50, true, 1, none⟩ = .ok ms ∧
    parseVsResult tiedPayload ⟨50, true, 2, none⟩ = .ok all ∧
      (all.filter fun m => m.sourceOffset = 0x1000).Pairwise fun a b => PairsNoBetter b a := by
  have haccepted : accepted ⟨50, true, 1, none⟩ tiedSummaries =
      [⟨0x1000, 5, false, 90, 64⟩, ⟨0x1000, 6, false, 90, 64⟩] := by decide +kernel
  have hscores : MatchScores (accepted ⟨50, true, 1, none⟩ tiedSummaries) := by
    rw [haccepted]
    exact ⟨by decide +kernel, by decide +kernel⟩
  obtain ⟨ms, all, hms, hall, hranked⟩ :=
    ranksAgree payloadJson_tiedPayload ⟨50, true, 1, none⟩ (List.nodup_singleton _) hscores
  rw [haccepted] at hall
  obtain ⟨dropped, -, -, hpairwise⟩ := hranked 0x1000
  exact ⟨ms, all, hms, hall, hpairwise⟩

end McritSimilarity

import McritSimilarity.PaintedRanges

/-!
# Leftover pairs

`_changed_pairs` as a matching of the leftover blocks: within the work budget it is stable for the order in which the
scored pairs are taken.
-/

set_option autoImplicit false

namespace McritSimilarity

section Order

variable (sm : SequenceMatcher) {source target : List BlockHash}

/-- Whether a pair comes before another one: by falling ratio, then by its indices. -/
def Precedes (p q : Pair source target) : Prop :=
  pairRatio sm source target q < pairRatio sm source target p ∨
    pairRatio sm source target p = pairRatio sm source target q ∧ (p.1 < q.1 ∨ p.1 = q.1 ∧ p.2 < q.2)

theorem Precedes.asymm {p q : Pair source target} (h : Precedes sm p q) : ¬ Precedes sm q p := by
  unfold Precedes at *
  rintro (hratio | ⟨hratio, hindex⟩)
  · rcases h with h | ⟨h, -⟩
    · exact lt_asymm h hratio
    · exact hratio.ne h
  · rcases h with h | ⟨-, h⟩
    · exact h.ne hratio
    · omega

instance : Std.Total (scoredLe source target) where
  total := by
    intro p q
    unfold scoredLe
    rcases lt_trichotomy p.1 q.1 with h | h | h
    · exact .inr (.inl h)
    · have hindex : (p.2.1 < q.2.1 ∨ p.2.1 = q.2.1 ∧ p.2.2 ≤ q.2.2) ∨
          (q.2.1 < p.2.1 ∨ q.2.1 = p.2.1 ∧ q.2.2 ≤ p.2.2) := by
        omega
      exact hindex.imp (fun hi => .inr ⟨h.symm, hi⟩) fun hi => .inr ⟨h, hi⟩
    · exact .inl (.inl h)

instance : IsTrans (ℚ × Pair source target) (scoredLe source target) where
  trans := by
    intro p q r hpq hqr
    unfold scoredLe at *
    rcases hpq with hpq | ⟨hpq, hindex⟩
    · rcases hqr with hqr | ⟨hqr, -⟩
      · exact .inl (hqr.trans hpq)
      · exact .inl (hqr ▸ hpq)
    · rcases hqr with hqr | ⟨hqr, hindex'⟩
      · exact .inl (hpq ▸ hqr)
      · refine .inr ⟨hqr.trans hpq, ?_⟩
        omega

theorem precedes_of_scoredLe {p q : Pair source target}
    (h : scoredLe source target (pairRatio sm source target p, p) (pairRatio sm source target q, q)) (hne : p ≠ q) :
    Precedes sm p q := by
  refine h.imp_right fun ⟨hratio, hindex⟩ => ⟨hratio.symm, ?_⟩
  have hle : p.1 < q.1 ∨ p.1 = q.1 ∧ p.2 ≤ q.2 := hindex
  have hdiff : ¬ (p.1 = q.1 ∧ p.2 = q.2) := fun heq => hne (Prod.ext heq.1 heq.2)
  omega

end Order

section Matching

variable (sm : SequenceMatcher) {source target : List BlockHash} (sourceLeft : List (Fin source.length))
  (targetLeft : List (Fin target.length))

/-- The pairs of leftovers that may be paired. -/
def candidatePairs : Set (Pair source target) :=
  {p | p.1 ∈ sourceLeft ∧ p.2 ∈ targetLeft ∧ (target.get p.2).escaped ≠ "" ∧
    changedRatio ≤ pairRatio sm source target p}

/-- A matching of leftover blocks.  Within the work budget every candidate that is left out is blocked by a pair that
comes before it, so no candidate has both blocks unpaired or comes before the pairs of both its blocks. -/
structure StableMatching (pairs : List (Pair source target)) : Prop where
  matching : IsMatching pairs
  candidates : ∀ p ∈ pairs, p ∈ candidatePairs sm sourceLeft targetLeft
  stable : fuzzyWork source target sourceLeft targetLeft ≤ fuzzyWorkBudget →
    IsStable (Precedes sm) (candidatePairs sm sourceLeft targetLeft) pairs
  maximal : fuzzyWork source target sourceLeft targetLeft ≤ fuzzyWorkBudget →
    ∀ p ∈ candidatePairs sm sourceLeft targetLeft, p.1 ∈ pairs.map Prod.fst ∨ p.2 ∈ pairs.map Prod.snd
  not_blocking : fuzzyWork source target sourceLeft targetLeft ≤ fuzzyWorkBudget →
    ∀ p ∈ candidatePairs sm sourceLeft targetLeft, ∀ q ∈ pairs, ∀ r ∈ pairs, q.1 = p.1 → r.2 = p.2 →
      ¬ (Precedes sm p q ∧ Precedes sm p r)

variable {sourceLeft targetLeft}

theorem mem_candidatePairs {p : Pair source target} (hs : p.1 ∈ sourceLeft) (ht : p.2 ∈ targetLeft)
    (h : similar sm source target p = true) : p ∈ candidatePairs sm sourceLeft targetLeft := by
  unfold similar at h
  rw [Bool.and_eq_true, decide_eq_true_eq, decide_eq_true_eq] at h
  exact ⟨hs, ht, h⟩

theorem similar_of_mem {p : Pair source target} (h : p ∈ candidatePairs sm sourceLeft targetLeft) :
    similar sm source target p = true := by
  unfold similar
  rw [Bool.and_eq_true, decide_eq_true_eq, decide_eq_true_eq]
  exact h.2.2

/-- The scored pairs are taken in order. -/
theorem pairwise_scoredPairs : ((scoredPairs sm source target sourceLeft targetLeft).map Prod.snd).Pairwise fun p q =>
    scoredLe source target (pairRatio sm source target p, p) (pairRatio sm source target q, q) := by
  rw [List.pairwise_map]
  have hsorted : (scoredPairs sm source target sourceLeft targetLeft).Pairwise (scoredLe source target) :=
    List.pairwise_insertionSort _ _
  refine hsorted.imp_of_mem fun {entry entry'} hmem hmem' hle => ?_
  have hratio := ((mem_scoredPairs sm).1 hmem).2
  have hratio' := ((mem_scoredPairs sm).1 hmem').2
  rw [← hratio, ← hratio']
  exact hle

theorem changedPairs_candidates {p : Pair source target} (h : p ∈ changedPairs sm source target sourceLeft targetLeft) :
    p ∈ candidatePairs sm sourceLeft targetLeft := by
  unfold changedPairs at h
  split_ifs at h
  · cases h
  · obtain ⟨hzip, hsimilar⟩ := List.mem_filter.1 h
    obtain ⟨hs, ht⟩ := List.of_mem_zip hzip
    exact mem_candidatePairs sm hs ht hsimilar
  · rw [greedyPairs_eq] at h
    obtain ⟨entry, hentry, rfl⟩ := List.mem_map.1 (mem_greedyMatching h).1
    obtain ⟨⟨hs, ht, hsimilar⟩, -⟩ := (mem_scoredPairs sm).1 hentry
    exact mem_candidatePairs sm hs ht hsimilar

theorem isStable_changedPairs (hwork : fuzzyWork source target sourceLeft targetLeft ≤ fuzzyWorkBudget) :
    IsStable (Precedes sm) (candidatePairs sm sourceLeft targetLeft)
      (changedPairs sm source target sourceLeft targetLeft) := by
  intro p hp hout
  unfold changedPairs at hout ⊢
  split_ifs at hout ⊢ with hempty hbudget
  · rcases hempty with rfl | rfl
    · cases hp.1
    · cases hp.2.1
  · exact absurd hwork (not_le.2 hbudget)
  · have hedge : p ∈ (scoredPairs sm source target sourceLeft targetLeft).map Prod.snd :=
      List.mem_map.2 ⟨(pairRatio sm source target p, p),
        (mem_scoredPairs sm).2 ⟨⟨hp.1, hp.2.1, similar_of_mem sm hp⟩, rfl⟩, rfl⟩
    rw [greedyPairs_eq] at hout ⊢
    obtain ⟨q, hq, hends, hle, hne⟩ := isStable_greedyMatching (pairwise_scoredPairs sm) p hedge hout
    exact ⟨q, hq, hends, precedes_of_scoredLe sm hle hne⟩

/-- The leftovers are paired by a stable matching. -/
theorem stableMatching_changedPairs (hs : sourceLeft.Nodup) (ht : targetLeft.Nodup) :
    StableMatching sm sourceLeft targetLeft (changedPairs sm source target sourceLeft targetLeft) := by
  have hspec := changedPairs_spec sm hs ht
  have hmatching : IsMatching (changedPairs sm source target sourceLeft targetLeft) :=
    ⟨hspec.nodup_source, hspec.nodup_target⟩
  refine ⟨hmatching, fun p hp => changedPairs_candidates sm hp, fun hwork => isStable_changedPairs sm hwork,
    fun hwork p hp => (isStable_changedPairs sm hwork).maximal hp, fun hwork p hp q hq r hr hqp hrp => ?_⟩
  exact (isStable_changedPairs sm hwork).not_blocking hmatching (fun _ _ h => h.asymm) hp hq hr hqp hrp

end Matching

/-- A matcher for texts of one character. -/
def letterMatcher : SequenceMatcher :=
  { coarseMatcher with
    realQuickRatio := fun _ _ => 1
    quickRatio := fun left right => if left = right then 1 else 0
    ratio := fun left right => if left = right then 1 else 0 }

def exampleSourceLeft : List (Fin exampleSource.length) := [⟨0, by decide⟩, ⟨1, by decide⟩]

def exampleTargetLeft : List (Fin exampleTarget.length) := [⟨0, by decide⟩, ⟨1, by decide⟩]

theorem changedPairs_example :
    changedPairs letterMatcher exampleSource exampleTarget exampleSourceLeft exampleTargetLeft =
        [(⟨1, by decide⟩, ⟨1, by decide⟩)] ∧
      StableMatching letterMatcher exampleSourceLeft exampleTargetLeft
        (changedPairs letterMatcher exampleSource exampleTarget exampleSourceLeft exampleTargetLeft) :=
  ⟨by decide +kernel, stableMatching_changedPairs letterMatcher (by decide) (by decide)⟩

/-! ## Blocks painted as removed or added -/

section Painted

variable (sm : SequenceMatcher) {source target : List BlockHash}

/-- The leftovers that are paired by similarity. -/
def similarityRest (left : List (Fin source.length) × List (Fin target.length)) :
    List (Fin source.length) × List (Fin target.length) :=
  match leftoverEntries source target left with
  | some (i, j) => (left.1.filter (· ≠ i), left.2.filter (· ≠ j))
  | none => left

variable {left : List (Fin source.length) × List (Fin target.length)}

theorem alignedPairs_eq : alignedPairs sm source target left = (leftoverEntries source target left).toList ++
    changedPairs sm source target (similarityRest left).1 (similarityRest left).2 := by
  unfold alignedPairs similarityRest
  cases leftoverEntries source target left <;> rfl

/-- A leftover that is not paired was offered for pairing by similarity. -/
theorem mem_similarityRest {p : Pair source target} (hi : p.1 ∈ left.1) (hj : p.2 ∈ left.2)
    (hi' : p.1 ∉ (alignedPairs sm source target left).map Prod.fst)
    (hj' : p.2 ∉ (alignedPairs sm source target left).map Prod.snd) :
    p.1 ∈ (similarityRest left).1 ∧ p.2 ∈ (similarityRest left).2 := by
  rw [alignedPairs_eq, List.map_append, List.mem_append, not_or] at hi' hj'
  unfold similarityRest
  cases hentries : leftoverEntries source target left with
  | none => exact ⟨hi, hj⟩
  | some q =>
    rw [hentries] at hi' hj'
    have hne : p.1 ≠ q.1 := by simpa using hi'.1
    have hne' : p.2 ≠ q.2 := by simpa using hj'.1
    exact ⟨List.mem_filter.2 ⟨hi, decide_eq_true hne⟩, List.mem_filter.2 ⟨hj, decide_eq_true hne'⟩⟩

/-- Of a pair, whole blocks are painted as changed. -/
theorem PairPaint.changed_of_whole {left right : BlockHash} {paint paint' : List BlockAnnotation}
    (h : PairPaint left right paint paint') {a : BlockAnnotation} (hwhole : a.instruction = none)
    (ha : a ∈ paint ∨ a ∈ paint') : a.changed = true := by
  have hruns : ∀ {block : BlockHash} {runs : List (Run InstructionHash)} {side : Run InstructionHash →
      List InstructionHash}, a ∉ runs.flatMap fun r => runPaint block r.tag (side r) := by
    intro block runs side hmem
    obtain ⟨r, -, hr⟩ := List.mem_flatMap.1 hmem
    obtain ⟨ins, -, rfl⟩ := mem_runPaint hr
    cases hwhole
  cases h with
  | same => simp at ha
  | whole => rcases ha with ha | ha <;> rw [List.mem_singleton.1 ha]
  | aligned => exact absurd ha (not_or.2 ⟨hruns, hruns⟩)

/-- What no pair is painted is a block outside the pairs. -/
theorem exists_of_oneSided {ι π : Type} (block : ι → BlockHash) {rest : List ι} {aligned : List π}
    {diff : π → List BlockAnnotation} {a : BlockAnnotation}
    (ha : a ∈ (rest.map (fun i => oneSided (block i)) ++ aligned.flatMap diff).map entryChanged)
    (hdiff : ∀ p ∈ aligned, a ∉ (diff p).map entryChanged) : ∃ i ∈ rest, a.block = block i := by
  have hside : (rest.map (fun i => oneSided (block i)) ++ aligned.flatMap diff).map entryChanged =
      rest.map (fun i => wholePaint (block i)) ++ aligned.flatMap fun p => (diff p).map entryChanged :=
    map_entryChanged_side block rest fun _ _ => rfl
  rw [hside] at ha
  rcases List.mem_append.1 ha with ha | ha
  · obtain ⟨i, hi, rfl⟩ := List.mem_map.1 ha
    exact ⟨i, hi, rfl⟩
  · obtain ⟨p, hp, ha⟩ := List.mem_flatMap.1 ha
    exact absurd ha (hdiff p hp)

/-- Within the work budget, no block is painted as removed while one that is similar to it is painted as added. -/
theorem not_similar_of_oneSided (hwork : fuzzyWork source target (similarityRest (unanchored source target)).1
      (similarityRest (unanchored source target)).2 ≤ fuzzyWorkBudget)
    {a b : BlockAnnotation} (ha : a ∈ (annotations sm source target).1) (hb : b ∈ (annotations sm source target).2)
    (hremoved : a.instruction = none ∧ a.changed = false) (hadded : b.instruction = none ∧ b.changed = false) :
    b.block.escaped = "" ∨ fuzzyRatio sm b.block.escaped a.block.escaped < changedRatio := by
  have hpair : ∀ p : Pair source target, ∀ c : BlockAnnotation, c.instruction = none ∧ c.changed = false →
      ¬ (c ∈ (pairDiff sm source target p).1.map entryChanged ∨
        c ∈ (pairDiff sm source target p).2.map entryChanged) := by
    rintro p c ⟨hwhole, hchanged⟩ hmem
    have htrue := (pairPaint_instructionDiff sm _ _).changed_of_whole hwhole hmem
    rw [hchanged] at htrue
    cases htrue
  obtain ⟨i, hi, hsource⟩ := exists_of_oneSided (fun i => source[i]) ha fun p _ h => hpair p a hremoved (.inl h)
  obtain ⟨j, hj, htarget⟩ := exists_of_oneSided (fun j => target[j]) hb fun p _ h => hpair p b hadded (.inr h)
  rw [List.mem_filter, decide_eq_true_eq] at hi hj
  rw [hsource, htarget]
  by_contra hsimilar
  obtain ⟨htext, hratio⟩ := not_or.1 hsimilar
  obtain ⟨hi', hj'⟩ := mem_similarityRest sm (p := (i, j)) hi.1 hj.1 hi.2 hj.2
  rcases (isStable_changedPairs sm hwork).maximal ⟨hi', hj', htext, not_lt.1 hratio⟩ with hmem | hmem
  · refine hi.2 ?_
    rw [alignedPairs_eq, List.map_append]
    exact List.mem_append_right _ hmem
  · refine hj.2 ?_
    rw [alignedPairs_eq, List.map_append]
    exact List.mem_append_right _ hmem

end Painted

end McritSimilarity

import Mathlib.Algebra.Order.Field.Basic
import McritSimilarity.DiffExplained
import McritSimilarity.Lib.MatchingBlocks

/-!
# The quick bounds of the similarity

`_ratio` does not compute the ratio of two texts when one of two bounds of `difflib` falls short.  For a matcher that
does as `difflib` documents (`SequenceMatcher.Documented`), both bounds are at least the ratio, so `_ratio` and the
ratio reach `changedRatio` for the same texts (`changedRatio_le_fuzzyRatio_iff`), and `changedPairs` pairs as with the
ratio itself (`boundsHarmless`).
-/

set_option autoImplicit false

namespace McritSimilarity

/-! ## `difflib` -/

/-- `_calculate_ratio`. -/
def calculateRatio (matched length : ℕ) : ℚ := if length = 0 then 1 else 2 * matched / length

/-- The ratios are computed from the matching blocks, the characters that the texts share, and their lengths. -/
structure SequenceMatcher.Documented (sm : SequenceMatcher) : Prop where
  ratio : ∀ left right, ∃ blocks, MatchesFrom left.toList right.toList 0 0 blocks ∧
    sm.ratio left right = calculateRatio (matchedLength blocks) (left.length + right.length)
  quickRatio : ∀ left right, sm.quickRatio left right =
    calculateRatio (sharedCount left.toList right.toList) (left.length + right.length)
  realQuickRatio : ∀ left right, sm.realQuickRatio left right =
    calculateRatio (min left.length right.length) (left.length + right.length)

theorem calculateRatio_mono {m n : ℕ} (h : m ≤ n) (length : ℕ) : calculateRatio m length ≤ calculateRatio n length := by
  unfold calculateRatio
  split_ifs
  · exact le_rfl
  · have hdouble : (2 : ℚ) * m ≤ 2 * n := by exact_mod_cast Nat.mul_le_mul_left 2 h
    exact div_le_div_of_nonneg_right hdouble (Nat.cast_nonneg length)

section Bounds

variable {sm : SequenceMatcher} (h : sm.Documented) (left right : String)

include h

theorem ratio_le_quickRatio : sm.ratio left right ≤ sm.quickRatio left right := by
  obtain ⟨blocks, hblocks, hratio⟩ := h.ratio left right
  rw [hratio, h.quickRatio]
  exact calculateRatio_mono hblocks.matchedLength_le _

theorem quickRatio_le_realQuickRatio : sm.quickRatio left right ≤ sm.realQuickRatio left right := by
  rw [h.quickRatio, h.realQuickRatio]
  refine calculateRatio_mono ?_ _
  rw [← String.length_toList, ← String.length_toList]
  exact sharedCount_le _ _

/-- An empty text is like no other one. -/
theorem ratio_empty (hright : right ≠ "") : sm.ratio "" right = 0 := by
  obtain ⟨blocks, hblocks, hratio⟩ := h.ratio "" right
  have hnone : matchedLength blocks = 0 := by
    have hle := hblocks.matchedLength_le.trans (sharedCount_le _ _)
    simpa using hle
  have hlength : "".length + right.length ≠ 0 := by
    simpa using hright
  rw [hratio, hnone, calculateRatio, if_neg hlength]
  simp

variable {right}

/-- The bounds only cut off ratios that fall short. -/
theorem fuzzyRatio_cases (hright : right ≠ "") : fuzzyRatio sm right left = sm.ratio left right ∨
    fuzzyRatio sm right left = 0 ∧ sm.ratio left right < changedRatio := by
  unfold fuzzyRatio
  split_ifs with hempty hquick
  · subst hempty
    exact .inl (ratio_empty h right hright).symm
  · refine .inr ⟨rfl, ?_⟩
    have hle := ratio_le_quickRatio h left right
    rcases hquick with hreal | hquick
    · exact (hle.trans (quickRatio_le_realQuickRatio h left right)).trans_lt hreal
    · exact hle.trans_lt hquick
  · exact .inl rfl

theorem changedRatio_le_fuzzyRatio_iff (hright : right ≠ "") :
    (changedRatio ≤ fuzzyRatio sm right left ↔ changedRatio ≤ sm.ratio left right) ∧
      (changedRatio ≤ fuzzyRatio sm right left → fuzzyRatio sm right left = sm.ratio left right) := by
  rcases fuzzyRatio_cases h left hright with heq | ⟨hzero, hlt⟩
  · rw [heq]
    exact ⟨Iff.rfl, fun _ => rfl⟩
  · have hshort : ¬ changedRatio ≤ fuzzyRatio sm right left := by
      rw [hzero]
      exact not_le_of_gt one_half_pos
    exact ⟨⟨fun hle => absurd hle hshort, fun hle => absurd hlt (not_lt_of_ge hle)⟩, fun hle => absurd hle hshort⟩

end Bounds

/-! ## Pairs by the ratio itself -/

section Pairs

variable (sm : SequenceMatcher) (source target : List BlockHash)

/-- A pair is similar by a ratio. -/
def similarBy (ratio : Pair source target → ℚ) (p : Pair source target) : Bool :=
  (target.get p.2).escaped ≠ "" && changedRatio ≤ ratio p

def scoredPairsBy (ratio : Pair source target → ℚ) (sourceLeft : List (Fin source.length))
    (targetLeft : List (Fin target.length)) : List (ℚ × Pair source target) :=
  (targetLeft.flatMap fun j => (sourceLeft.filter fun i => similarBy source target ratio (i, j)).map
    fun i => (ratio (i, j), i, j)).insertionSort (scoredLe source target)

/-- `_changed_pairs` with another function for `_ratio`. -/
def changedPairsBy (ratio : Pair source target → ℚ) (sourceLeft : List (Fin source.length))
    (targetLeft : List (Fin target.length)) : List (Pair source target) :=
  if sourceLeft = [] ∨ targetLeft = [] then []
  else if fuzzyWorkBudget < fuzzyWork source target sourceLeft targetLeft then
    (sourceLeft.zip targetLeft).filter (similarBy source target ratio)
  else greedyPairs source target (scoredPairsBy source target ratio sourceLeft targetLeft) [] []

/-- `SequenceMatcher(None, left, right).ratio()`. -/
def plainRatio (p : Pair source target) : ℚ :=
  sm.ratio (source.get p.1).escaped (target.get p.2).escaped

/-- The bounds change neither whether `_ratio` reaches `_CHANGED_RATIO` nor its value when it does, and so no pair. -/
structure BoundsHarmless : Prop where
  ratio : ∀ left right : String, right ≠ "" →
    (changedRatio ≤ fuzzyRatio sm right left ↔ changedRatio ≤ sm.ratio left right) ∧
      (changedRatio ≤ fuzzyRatio sm right left → fuzzyRatio sm right left = sm.ratio left right)
  pairs : ∀ (source target : List BlockHash) (sourceLeft : List (Fin source.length))
    (targetLeft : List (Fin target.length)),
    changedPairs sm source target sourceLeft targetLeft =
      changedPairsBy source target (plainRatio sm source target) sourceLeft targetLeft

variable {sm source target}

theorem changedPairs_eq_changedPairsBy (sourceLeft : List (Fin source.length)) (targetLeft : List (Fin target.length)) :
    changedPairs sm source target sourceLeft targetLeft =
      changedPairsBy source target (pairRatio sm source target) sourceLeft targetLeft := rfl

section Congr

variable {ratio ratio' : Pair source target → ℚ}
  (h : ∀ p, (target.get p.2).escaped ≠ "" → (changedRatio ≤ ratio p ↔ changedRatio ≤ ratio' p) ∧
    (changedRatio ≤ ratio p → ratio p = ratio' p))

include h

theorem similarBy_congr : similarBy source target ratio = similarBy source target ratio' := by
  funext p
  unfold similarBy
  by_cases htext : (target.get p.2).escaped = ""
  · have hnone : decide ((target.get p.2).escaped ≠ "") = false := decide_eq_false (not_not_intro htext)
    rw [hnone]
    rfl
  · rw [decide_eq_decide.2 (h p htext).1]

theorem scoredPairsBy_congr (sourceLeft : List (Fin source.length)) (targetLeft : List (Fin target.length)) :
    scoredPairsBy source target ratio sourceLeft targetLeft =
      scoredPairsBy source target ratio' sourceLeft targetLeft := by
  unfold scoredPairsBy
  rw [← similarBy_congr h]
  congr 1
  refine List.flatMap_congr fun j _ => List.map_congr_left fun i hi => ?_
  have hsimilar := (List.mem_filter.1 hi).2
  rw [similarBy, Bool.and_eq_true, decide_eq_true_eq, decide_eq_true_eq] at hsimilar
  rw [(h (i, j) hsimilar.1).2 hsimilar.2]

theorem changedPairsBy_congr (sourceLeft : List (Fin source.length)) (targetLeft : List (Fin target.length)) :
    changedPairsBy source target ratio sourceLeft targetLeft =
      changedPairsBy source target ratio' sourceLeft targetLeft := by
  unfold changedPairsBy
  rw [similarBy_congr h, scoredPairsBy_congr h]

end Congr

end Pairs

/-- The quick bounds never change the outcome. -/
theorem boundsHarmless {sm : SequenceMatcher} (h : sm.Documented) : BoundsHarmless sm where
  ratio := fun left _ hright => changedRatio_le_fuzzyRatio_iff h left hright
  pairs := fun _ _ sourceLeft targetLeft => by
    rw [changedPairs_eq_changedPairsBy]
    exact changedPairsBy_congr (fun p htext => changedRatio_le_fuzzyRatio_iff h _ htext) sourceLeft targetLeft

/-! ## Texts with a common prefix -/

section Prefix

variable {α : Type} [DecidableEq α]

def prefixLength : List α → List α → ℕ
  | x :: xs, y :: ys => if x = y then prefixLength xs ys + 1 else 0
  | _, _ => 0

theorem take_prefixLength (xs ys : List α) : prefixLength xs ys ≤ xs.length ∧ prefixLength xs ys ≤ ys.length ∧
    xs.take (prefixLength xs ys) = ys.take (prefixLength xs ys) := by
  fun_induction prefixLength xs ys with
  | case1 x xs ys ih =>
    obtain ⟨hx, hy, heq⟩ := ih
    exact ⟨Nat.succ_le_succ hx, Nat.succ_le_succ hy, by rw [List.take_succ_cons, List.take_succ_cons, heq]⟩
  | case2 => exact ⟨Nat.zero_le _, Nat.zero_le _, rfl⟩
  | case3 => exact ⟨Nat.zero_le _, Nat.zero_le _, rfl⟩

theorem matchesFrom_prefix (xs ys : List α) : MatchesFrom xs ys 0 0 [⟨0, 0, prefixLength xs ys⟩] := by
  obtain ⟨hx, hy, heq⟩ := take_prefixLength xs ys
  have hslice : ∀ zs : List α, slice zs 0 (0 + prefixLength xs ys) = zs.take (prefixLength xs ys) := by
    intro zs
    simp [slice]
  refine .cons le_rfl le_rfl ?_ ?_ ?_ (.nil _ _)
  · simpa using hx
  · simpa using hy
  · rw [hslice, hslice, heq]

end Prefix

/-- A matcher of texts whose only common run is at their start. -/
def prefixMatcher : SequenceMatcher where
  realQuickRatio := fun left right => calculateRatio (min left.length right.length) (left.length + right.length)
  quickRatio := fun left right =>
    calculateRatio (sharedCount left.toList right.toList) (left.length + right.length)
  ratio := fun left right => calculateRatio (prefixLength left.toList right.toList) (left.length + right.length)
  getOpcodes := coarseOpcodes
  valid := valid_coarseOpcodes

theorem documented_prefixMatcher : prefixMatcher.Documented where
  ratio := fun left right => ⟨_, matchesFrom_prefix left.toList right.toList, rfl⟩
  quickRatio := fun _ _ => rfl
  realQuickRatio := fun _ _ => rfl

theorem boundsHarmless_prefixMatcher :
    fuzzyRatio prefixMatcher "5589" "5588" = prefixMatcher.ratio "5588" "5589" ∧
      changedPairs prefixMatcher exampleSource exampleTarget (List.finRange _) (List.finRange _) =
        changedPairsBy exampleSource exampleTarget (plainRatio prefixMatcher exampleSource exampleTarget)
          (List.finRange _) (List.finRange _) := by
  have h := boundsHarmless documented_prefixMatcher
  exact ⟨(h.ratio "5588" "5589" (by decide)).2 (by decide +kernel), h.pairs _ _ _ _⟩

end McritSimilarity

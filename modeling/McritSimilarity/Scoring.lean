import Mathlib.Tactic.Linarith
import Mathlib.Tactic.Positivity
import McritSimilarity.Python.Json

/-!
# Scores

MCRIT's 0–100 scores and match flags as Binary Ninja's 0–255 similarity and confidence, computed over
exact rationals.
-/

set_option autoImplicit false

namespace McritSimilarity

open Python

def isPichashFlag : ℤ := 2
def isLibraryFlag : ℤ := 4

/-- `flags & flag` for a flag that is a power of two. -/
def hasFlag (flags flag : ℤ) : Bool := (flags / flag) % 2 = 1

def confidenceFullBytes : ℚ := 64
def clearMargin : ℚ := 10

def clampScore (value : ℤ) : ℤ := max 0 (min 255 value)

def similarityFromMinhash (matchedScore : ℚ) : ℤ :=
  if ¬ 0 < matchedScore then 0
  else if 100 ≤ matchedScore then 255
  else clampScore (roundHalfEven (matchedScore / 100 * 255))

/-- 1 for a sole or clearly leading candidate, 1/2 for a tie, at least 1/4 for trailing ones. -/
def uniquenessWeight : Option ℚ → ℚ
  | none => 1
  | some margin => max (1 / 4) (min 1 (1 / 2 + margin / (2 * clearMargin)))

/-- The weight of a function's size: `size / 64`, at most one.  `max(0.0, nan)` is `0.0`. -/
def sizeWeight : PyFloat → ℚ
  | .finite bytes =>
    let size := max 0 bytes
    if confidenceFullBytes ≤ size then 1 else size / confidenceFullBytes
  | .posInf => 1
  | .negInf => 0
  | .nan => 0

def confidenceFromMatch (matchedScore : ℚ) (flags : ℤ) (numBytes : PyFloat) (margin : Option ℚ)
    (pichashCandidates : ℕ) : ℤ :=
  if hasFlag flags isPichashFlag then if pichashCandidates ≤ 1 then 255 else 128
  else
    let similarity := similarityFromMinhash matchedScore
    clampScore (roundHalfEven (similarity * sizeWeight numBytes * uniquenessWeight margin))

/-! ## Rounding -/

theorem floor_le_roundHalfEven (q : ℚ) : q.floor ≤ roundHalfEven q := by
  unfold roundHalfEven
  simp only
  split_ifs <;> omega

theorem roundHalfEven_le (q : ℚ) : roundHalfEven q ≤ q.floor + 1 := by
  unfold roundHalfEven
  simp only
  split_ifs <;> omega

theorem roundHalfEven_mono {p q : ℚ} (h : p ≤ q) : roundHalfEven p ≤ roundHalfEven q := by
  have hfloor : p.floor ≤ q.floor := Int.floor_mono h
  rcases hfloor.lt_or_eq with hlt | heq
  · exact (roundHalfEven_le p).trans (le_trans hlt (floor_le_roundHalfEven q))
  · have hrest : p - p.floor ≤ q - q.floor := by
      rw [heq]
      linarith
    unfold roundHalfEven
    rw [heq] at hrest ⊢
    simp only
    split_ifs <;> first | omega | (exfalso; linarith)

theorem clampScore_mono {a b : ℤ} (h : a ≤ b) : clampScore a ≤ clampScore b := by
  unfold clampScore
  omega

theorem clampScore_le {a b : ℤ} (hb : 0 ≤ b) (h : a ≤ b) : clampScore a ≤ b := by
  unfold clampScore
  omega

/-! ## Bounds -/

theorem similarityFromMinhash_nonneg (score : ℚ) : 0 ≤ similarityFromMinhash score := by
  unfold similarityFromMinhash clampScore
  split_ifs <;> omega

theorem similarityFromMinhash_le (score : ℚ) : similarityFromMinhash score ≤ 255 := by
  unfold similarityFromMinhash clampScore
  split_ifs <;> omega

theorem similarityFromMinhash_mono {a b : ℚ} (h : a ≤ b) :
    similarityFromMinhash a ≤ similarityFromMinhash b := by
  by_cases ha : 0 < a
  · by_cases hb : 100 ≤ b
    · have hfull : similarityFromMinhash b = 255 := by
        rw [similarityFromMinhash, if_neg (not_not.2 (ha.trans_le h)), if_pos hb]
      rw [hfull]
      exact similarityFromMinhash_le a
    · have ha' : ¬ 100 ≤ a := fun ha' => hb (ha'.trans h)
      rw [similarityFromMinhash, similarityFromMinhash, if_neg (not_not.2 ha), if_neg ha',
        if_neg (not_not.2 (ha.trans_le h)), if_neg hb]
      exact clampScore_mono (roundHalfEven_mono (by linarith))
  · rw [similarityFromMinhash, if_pos ha]
    exact similarityFromMinhash_nonneg b

theorem sizeWeight_nonneg (bytes : PyFloat) : 0 ≤ sizeWeight bytes := by
  cases bytes with
  | finite bytes =>
    have hsize : sizeWeight (.finite bytes) = if 64 ≤ max 0 bytes then 1 else max 0 bytes / 64 := rfl
    rw [hsize]
    split_ifs <;> positivity
  | _ => simp [sizeWeight]

theorem sizeWeight_le_one (bytes : PyFloat) : sizeWeight bytes ≤ 1 := by
  cases bytes with
  | finite bytes =>
    have hsize : sizeWeight (.finite bytes) = if 64 ≤ max 0 bytes then 1 else max 0 bytes / 64 := rfl
    rw [hsize]
    split_ifs with hfull
    · exact le_rfl
    · rw [not_le] at hfull
      linarith
  | _ => simp [sizeWeight]

theorem uniquenessWeight_nonneg (margin : Option ℚ) : 0 ≤ uniquenessWeight margin := by
  cases margin with
  | none => exact zero_le_one
  | some margin => exact le_max_of_le_left (by norm_num)

theorem uniquenessWeight_mono {a b : ℚ} (h : a ≤ b) :
    uniquenessWeight (some a) ≤ uniquenessWeight (some b) := by
  unfold uniquenessWeight clearMargin
  refine max_le_max le_rfl (min_le_min le_rfl ?_)
  linarith

/-- A match that is tied or beaten keeps at most half of its confidence. -/
theorem uniquenessWeight_le_half {margin : ℚ} (h : margin ≤ 0) : uniquenessWeight (some margin) ≤ 1 / 2 := by
  have hzero : uniquenessWeight (some 0) = 1 / 2 := by
    norm_num [uniquenessWeight]
  exact (uniquenessWeight_mono h).trans_eq hzero

/-- The confidence of a MinHash match is monotone in its similarity and its uniqueness. -/
theorem confidence_mono {s s' : ℤ} {w u u' : ℚ} (hs : 0 ≤ s) (hss : s ≤ s') (hw : 0 ≤ w) (hu : 0 ≤ u)
    (huu : u ≤ u') : clampScore (roundHalfEven (s * w * u)) ≤ clampScore (roundHalfEven (s' * w * u')) := by
  have hs' : (0 : ℚ) ≤ s := by exact_mod_cast hs
  have hss' : (s : ℚ) ≤ s' := by exact_mod_cast hss
  refine clampScore_mono (roundHalfEven_mono ?_)
  exact mul_le_mul (mul_le_mul_of_nonneg_right hss' hw) huu hu (mul_nonneg (hs'.trans hss') hw)

/-- 127.5 rounds to 128. -/
theorem confidence_le_of_tied {score : ℚ} {flags : ℤ} (bytes : PyFloat) {margin : ℚ} (count : ℕ)
    (hflags : hasFlag flags isPichashFlag = false) (hmargin : margin ≤ 0) :
    confidenceFromMatch score flags bytes (some margin) count ≤ 128 := by
  have hsimilarity : (similarityFromMinhash score : ℚ) ≤ 255 := by
    exact_mod_cast similarityFromMinhash_le score
  have hnonneg : (0 : ℚ) ≤ similarityFromMinhash score := by
    exact_mod_cast similarityFromMinhash_nonneg score
  have hproduct : similarityFromMinhash score * sizeWeight bytes * uniquenessWeight (some margin) ≤
      (255 : ℚ) * 1 * (1 / 2) := by
    refine mul_le_mul ?_ (uniquenessWeight_le_half hmargin) (uniquenessWeight_nonneg _) (by norm_num)
    exact mul_le_mul hsimilarity (sizeWeight_le_one bytes) (sizeWeight_nonneg bytes) (by norm_num)
  have hround : roundHalfEven ((255 : ℚ) * 1 * (1 / 2)) = 128 := by decide +kernel
  rw [confidenceFromMatch, hflags]
  exact clampScore_le (by norm_num) ((roundHalfEven_mono hproduct).trans_eq hround)

theorem confidenceFromMatch_le (score : ℚ) (flags : ℤ) (bytes : PyFloat) (margin : Option ℚ) (count : ℕ) :
    confidenceFromMatch score flags bytes margin count ≤ 255 := by
  unfold confidenceFromMatch
  split_ifs
  · norm_num
  · norm_num
  · exact max_le (by norm_num) (min_le_left _ _)

end McritSimilarity

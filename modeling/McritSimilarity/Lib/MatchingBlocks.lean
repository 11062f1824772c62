import Mathlib.Algebra.GroupWithZero.Nat
import Mathlib.Data.Multiset.UnionInter
import McritSimilarity.Lib.EditScript

/-!
# Matching blocks

Blocks name runs of equal elements of two lists by their positions.  When the runs are disjoint and increasing on both
sides (`MatchesFrom`), they make up a common subsequence (`MatchesFrom.exists_common`), so that their total length is at
most the number of elements that the lists share, and this at most the length of the shorter one.
-/

set_option autoImplicit false

/-- `xs[a:a + size]` is `ys[b:b + size]`. -/
structure MatchingBlock where
  a : ℕ
  b : ℕ
  size : ℕ
  deriving DecidableEq, Repr

variable {α : Type}

/-- Disjoint increasing runs of equal elements, from the positions `i` and `j` on. -/
inductive MatchesFrom (xs ys : List α) : ℕ → ℕ → List MatchingBlock → Prop where
  | nil (i j : ℕ) : MatchesFrom xs ys i j []
  | cons {i j : ℕ} {m : MatchingBlock} {ms : List MatchingBlock} (hi : i ≤ m.a) (hj : j ≤ m.b)
      (hxs : m.a + m.size ≤ xs.length) (hys : m.b + m.size ≤ ys.length)
      (heq : slice xs m.a (m.a + m.size) = slice ys m.b (m.b + m.size))
      (hms : MatchesFrom xs ys (m.a + m.size) (m.b + m.size) ms) : MatchesFrom xs ys i j (m :: ms)

/-- The total length of the blocks. -/
def matchedLength (ms : List MatchingBlock) : ℕ := (ms.map MatchingBlock.size).sum

/-- The number of elements that two lists share, each as often as in both. -/
def sharedCount [DecidableEq α] (xs ys : List α) : ℕ := ((xs : Multiset α) ∩ (ys : Multiset α)).card

theorem length_slice {xs : List α} {i n : ℕ} (h : i + n ≤ xs.length) : (slice xs i (i + n)).length = n := by
  rw [slice, List.length_take, List.length_drop]
  omega

/-- A run in front of what comes later. -/
theorem slice_append_sublist {xs c : List α} {i k n : ℕ} (hik : i ≤ k) (hc : c.Sublist (xs.drop (k + n))) :
    (slice xs k (k + n) ++ c).Sublist (xs.drop i) :=
  calc (slice xs k (k + n) ++ c).Sublist (slice xs k (k + n) ++ xs.drop (k + n)) := hc.append_left _
    _ = xs.drop k := slice_append_drop (Nat.le_add_right k n)
    List.Sublist _ (xs.drop i) := List.drop_sublist_drop_left xs hik

namespace MatchesFrom

variable {xs ys : List α} {i j : ℕ} {ms : List MatchingBlock}

/-- The blocks are a common subsequence. -/
theorem exists_common (h : MatchesFrom xs ys i j ms) :
    ∃ c : List α, c.Sublist (xs.drop i) ∧ c.Sublist (ys.drop j) ∧ c.length = matchedLength ms := by
  induction h with
  | nil i j => exact ⟨[], List.nil_sublist _, List.nil_sublist _, rfl⟩
  | @cons i j m ms hi hj hxs hys heq hms ih =>
    obtain ⟨c, hcx, hcy, hlength⟩ := ih
    refine ⟨slice xs m.a (m.a + m.size) ++ c, slice_append_sublist hi hcx, ?_, ?_⟩
    · rw [heq]
      exact slice_append_sublist hj hcy
    · rw [List.length_append, length_slice hxs, hlength]
      rfl

variable [DecidableEq α]

theorem matchedLength_le (h : MatchesFrom xs ys i j ms) : matchedLength ms ≤ sharedCount xs ys := by
  obtain ⟨c, hcx, hcy, hlength⟩ := h.exists_common
  have hx : (c : Multiset α) ≤ xs := Multiset.coe_le.2 (hcx.trans (List.drop_sublist i xs)).subperm
  have hy : (c : Multiset α) ≤ ys := Multiset.coe_le.2 (hcy.trans (List.drop_sublist j ys)).subperm
  have hcard := Multiset.card_le_card (Multiset.le_inter hx hy)
  rwa [Multiset.coe_card, hlength] at hcard

end MatchesFrom

theorem sharedCount_le [DecidableEq α] (xs ys : List α) : sharedCount xs ys ≤ min xs.length ys.length := by
  rw [le_min_iff]
  exact ⟨Multiset.card_le_card Multiset.inter_le_left, Multiset.card_le_card Multiset.inter_le_right⟩

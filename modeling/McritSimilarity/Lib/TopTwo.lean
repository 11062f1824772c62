import Mathlib.Data.List.MinMax
import Mathlib.Data.List.Perm.Basic

/-!
# The two largest values of a list

`topTwo` finds the largest and the second largest value of a list in one pass, where equal values count
separately.  `rival_topTwo` is what they are for: from them and a value of the list follows the largest of
the other values.
-/

set_option autoImplicit false

namespace List

variable {α : Type} [LinearOrder α]

theorem Perm.max?_eq {l l' : List α} (h : l.Perm l') : l.max? = l'.max? := by
  refine Option.ext fun a => ?_
  rw [max?_eq_some_iff, max?_eq_some_iff]
  simp only [h.mem_iff]

/-- The two largest values with one more value. -/
def addToTop (top : Option α × Option α) (a : α) : Option α × Option α :=
  if top.1.all (· ≤ a) then (some a, top.1)
  else if top.2.all (· < a) then (top.1, some a) else top

def topTwo (l : List α) : Option α × Option α := l.foldl addToTop (none, none)

/-- The largest value, and the largest of the values without one occurrence of it. -/
theorem topTwo_eq (l : List α) : l.topTwo = (l.max?, l.max?.bind fun best => (l.erase best).max?) := by
  induction l using List.reverseRecOn with
  | nil => rfl
  | append_singleton l a ih =>
    rw [topTwo, foldl_append, foldl_cons, foldl_nil, ← topTwo, ih]
    have hperm : (l ++ [a]).Perm (a :: l) := perm_append_singleton a l
    rw [hperm.max?_eq]
    cases hmax : l.max? with
    | none =>
      obtain rfl : l = [] := max?_eq_none_iff.1 hmax
      simp [addToTop]
    | some b =>
      obtain ⟨hb, hle⟩ := max?_eq_some_iff.1 hmax
      by_cases hba : b ≤ a
      · have hnew : (a :: l).max? = some a := by
          refine max?_eq_some_iff.2 ⟨mem_cons_self, fun c hc => ?_⟩
          rcases mem_cons.1 hc with rfl | hc
          · exact le_rfl
          · exact (hle c hc).trans hba
        have hrest : ((l ++ [a]).erase a).Perm l := by
          simpa using hperm.erase a
        simp [addToTop, hba, hnew, hrest.max?_eq, hmax]
      · rw [not_le] at hba
        have hnew : (a :: l).max? = some b := by
          refine max?_eq_some_iff.2 ⟨mem_cons_of_mem a hb, fun c hc => ?_⟩
          rcases mem_cons.1 hc with rfl | hc
          · exact hba.le
          · exact hle c hc
        have hrest : ((l ++ [a]).erase b).Perm (a :: l.erase b) := by
          have herase := hperm.erase b
          rwa [erase_cons_tail (by simpa using hba.ne)] at herase
        simp only [addToTop, Option.all_some, not_le.2 hba, decide_false, Bool.false_eq_true, if_false,
          Option.bind_some, hnew, hrest.max?_eq]
        cases hsecond : (l.erase b).max? with
        | none =>
          rw [max?_eq_none_iff.1 hsecond]
          simp
        | some c =>
          rw [max?_cons, hsecond]
          by_cases hca : c < a
          · simp [hca, hca.le]
          · simp [hca, not_lt.1 hca]

/-- The largest of the values other than one occurrence of `a`. -/
theorem rival_topTwo {l : List α} {a best : α} (ha : a ∈ l) (hbest : l.topTwo.1 = some best) :
    (if best ≤ a then l.topTwo.2 else some best) = (l.erase a).max? := by
  rw [topTwo_eq] at hbest ⊢
  have hmax : l.max? = some best := hbest
  obtain ⟨hmem, hle⟩ := max?_eq_some_iff.1 hmax
  split_ifs with hba
  · obtain rfl : best = a := le_antisymm hba (hle a ha)
    simp only [hmax, Option.bind_some]
  · have hne : best ≠ a := fun h => hba h.le
    refine (max?_eq_some_iff.2 ⟨(mem_erase_of_ne hne).2 hmem, fun c hc => ?_⟩).symm
    exact hle c (mem_of_mem_erase hc)

end List

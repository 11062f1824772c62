import Mathlib.Data.List.DropRight
import McritSimilarity.Python.Text

/-!
# Stripped text

`strip` leaves nothing to strip, and a slash behind a stripped text is not stripped.
-/

set_option autoImplicit false

namespace Python

theorem stripChars_eq (s : List Char) : stripChars s = (s.dropWhile isSpace).rdropWhile isSpace := rfl

/-- The text neither begins nor ends with white space. -/
def Stripped (s : List Char) : Prop := s.dropWhile isSpace = s ∧ s.rdropWhile isSpace = s

theorem Stripped.stripChars_eq {s : List Char} (h : Stripped s) : stripChars s = s := by
  rw [Python.stripChars_eq, h.1, h.2]

theorem isSpace_head {c : Char} {s : List Char} (h : (c :: s).dropWhile isSpace = c :: s) : isSpace c = false := by
  cases hc : isSpace c with
  | false => rfl
  | true =>
    have hlength := congrArg List.length h
    have hle := (List.dropWhile_sublist (p := isSpace) (l := s)).length_le
    rw [List.dropWhile_cons_of_pos hc, List.length_cons] at hlength
    omega

theorem dropWhile_cons_of_not_space {c : Char} {s : List Char} (hc : isSpace c = false) :
    (c :: s).dropWhile isSpace = c :: s :=
  List.dropWhile_cons_of_neg (by simp [hc])

theorem stripped_stripChars (s : List Char) : Stripped (stripChars s) := by
  rw [stripChars_eq]
  refine ⟨?_, List.rdropWhile_idempotent _ _⟩
  have hdropped := List.dropWhile_idempotent isSpace s
  obtain ⟨rest, hrest⟩ := List.rdropWhile_prefix isSpace (s.dropWhile isSpace)
  rw [← hrest] at hdropped
  cases hleft : (s.dropWhile isSpace).rdropWhile isSpace with
  | nil => rfl
  | cons c cs =>
    rw [hleft] at hdropped
    exact dropWhile_cons_of_not_space (isSpace_head hdropped)

theorem strip_strip (s : String) : strip (strip s) = strip s := by
  unfold strip
  rw [String.toList_ofList, (stripped_stripChars s.toList).stripChars_eq]

theorem stripped_of_strip_eq {s : String} (h : strip s = s) : Stripped s.toList := by
  have hlist := congrArg String.toList h
  unfold strip at hlist
  rw [String.toList_ofList] at hlist
  have hstripped := stripped_stripChars s.toList
  rwa [hlist] at hstripped

theorem strip_append_slash {s : String} (h : strip s = s) (hs : s ≠ "") : strip (s ++ "/") = s ++ "/" := by
  have hstripped := stripped_of_strip_eq h
  have hlist : (s ++ "/").toList = s.toList ++ ['/'] := String.toList_append
  have hslash : Stripped (s.toList ++ ['/']) := by
    refine ⟨?_, List.rdropWhile_concat_neg _ _ _ (by decide)⟩
    cases hcs : s.toList with
    | nil => exact absurd (String.toList_inj.1 hcs) hs
    | cons c cs =>
      rw [hcs] at hstripped
      exact dropWhile_cons_of_not_space (isSpace_head hstripped.1)
  apply String.toList_inj.1
  unfold strip
  rw [String.toList_ofList, hlist, hslash.stripChars_eq]

end Python

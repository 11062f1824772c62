import Mathlib.Data.List.Nodup
import Mathlib.Data.Set.Defs
import Mathlib.Tactic.Common

/-!
# Greedy matchings

A matching is a list of edges that uses each end at most once.  `greedyMatching` goes over a list of edges and takes
each one whose ends are both free.  When the edges are sorted by preference, what it takes is a stable matching
(`isStable_greedyMatching`): an edge that is left out shares an end with a preferred one that was taken.
-/

set_option autoImplicit false

variable {ι κ : Type}

/-- The edges use each end at most once. -/
structure IsMatching (m : List (ι × κ)) : Prop where
  left : (m.map Prod.fst).Nodup
  right : (m.map Prod.snd).Nodup

/-- Every edge outside `m` shares an end with one of `m` that comes before it. -/
def IsStable (before : ι × κ → ι × κ → Prop) (edges : Set (ι × κ)) (m : List (ι × κ)) : Prop :=
  ∀ e ∈ edges, e ∉ m → ∃ p ∈ m, (p.1 = e.1 ∨ p.2 = e.2) ∧ before p e

section Matching

variable {m : List (ι × κ)}

theorem isMatching_nil : IsMatching ([] : List (ι × κ)) := ⟨List.nodup_nil, List.nodup_nil⟩

theorem IsMatching.cons {e : ι × κ} (h : IsMatching m) (hl : ∀ p ∈ m, p.1 ≠ e.1) (hr : ∀ p ∈ m, p.2 ≠ e.2) :
    IsMatching (e :: m) where
  left := by
    rw [List.map_cons, List.nodup_cons]
    refine ⟨fun hmem => ?_, h.left⟩
    obtain ⟨p, hp, hpe⟩ := List.mem_map.1 hmem
    exact hl p hp hpe
  right := by
    rw [List.map_cons, List.nodup_cons]
    refine ⟨fun hmem => ?_, h.right⟩
    obtain ⟨p, hp, hpe⟩ := List.mem_map.1 hmem
    exact hr p hp hpe

theorem IsMatching.eq_of_fst (h : IsMatching m) {p q : ι × κ} (hp : p ∈ m) (hq : q ∈ m) (hpq : p.1 = q.1) : p = q :=
  List.inj_on_of_nodup_map h.left hp hq hpq

theorem IsMatching.eq_of_snd (h : IsMatching m) {p q : ι × κ} (hp : p ∈ m) (hq : q ∈ m) (hpq : p.2 = q.2) : p = q :=
  List.inj_on_of_nodup_map h.right hp hq hpq

end Matching

section Stable

variable {before : ι × κ → ι × κ → Prop} {edges : Set (ι × κ)} {m : List (ι × κ)}

/-- No edge has both ends free. -/
theorem IsStable.maximal (h : IsStable before edges m) {e : ι × κ} (he : e ∈ edges) :
    e.1 ∈ m.map Prod.fst ∨ e.2 ∈ m.map Prod.snd := by
  by_cases hmem : e ∈ m
  · exact .inl (List.mem_map_of_mem hmem)
  · obtain ⟨p, hp, hends, -⟩ := h e he hmem
    refine hends.imp (fun hl => ?_) fun hr => ?_
    · exact List.mem_map.2 ⟨p, hp, hl⟩
    · exact List.mem_map.2 ⟨p, hp, hr⟩

/-- No edge comes before the edges of the matching at both of its ends. -/
theorem IsStable.not_blocking (h : IsStable before edges m) (hm : IsMatching m)
    (hasymm : ∀ p q, before p q → ¬ before q p) {e p q : ι × κ} (he : e ∈ edges) (hp : p ∈ m) (hq : q ∈ m)
    (hpe : p.1 = e.1) (hqe : q.2 = e.2) : ¬ (before e p ∧ before e q) := by
  rintro ⟨hbefore, hbefore'⟩
  have hmem : e ∉ m := by
    intro hmem
    obtain rfl := hm.eq_of_fst hp hmem hpe
    exact hasymm _ _ hbefore hbefore
  obtain ⟨r, hr, hl | hl, hfirst⟩ := h e he hmem
  · obtain rfl := hm.eq_of_fst hr hp (hl.trans hpe.symm)
    exact hasymm _ _ hfirst hbefore
  · obtain rfl := hm.eq_of_snd hr hq (hl.trans hqe.symm)
    exact hasymm _ _ hfirst hbefore'

end Stable

/-! ## The greedy matching -/

section Greedy

variable [DecidableEq ι] [DecidableEq κ]

/-- The edges whose ends are free, with the ends in use. -/
def greedyMatching : List (ι × κ) → List ι → List κ → List (ι × κ)
  | [], _, _ => []
  | e :: edges, usedLeft, usedRight =>
    if e.1 ∈ usedLeft ∨ e.2 ∈ usedRight then greedyMatching edges usedLeft usedRight
    else e :: greedyMatching edges (e.1 :: usedLeft) (e.2 :: usedRight)

/-- What is taken is an edge with free ends. -/
theorem mem_greedyMatching {edges : List (ι × κ)} {usedLeft : List ι} {usedRight : List κ} {e : ι × κ}
    (h : e ∈ greedyMatching edges usedLeft usedRight) : e ∈ edges ∧ e.1 ∉ usedLeft ∧ e.2 ∉ usedRight := by
  induction edges generalizing usedLeft usedRight with
  | nil => cases h
  | cons d edges ih =>
    unfold greedyMatching at h
    split_ifs at h with hused
    · obtain ⟨hmem, hfree⟩ := ih h
      exact ⟨List.mem_cons_of_mem _ hmem, hfree⟩
    · rcases List.mem_cons.1 h with rfl | h
      · exact ⟨List.mem_cons_self, not_or.1 hused⟩
      · obtain ⟨hmem, hl, hr⟩ := ih h
        exact ⟨List.mem_cons_of_mem _ hmem, List.not_mem_of_not_mem_cons hl, List.not_mem_of_not_mem_cons hr⟩

theorem isMatching_greedyMatching (edges : List (ι × κ)) (usedLeft : List ι) (usedRight : List κ) :
    IsMatching (greedyMatching edges usedLeft usedRight) := by
  induction edges generalizing usedLeft usedRight with
  | nil => exact isMatching_nil
  | cons d edges ih =>
    unfold greedyMatching
    split_ifs
    · exact ih usedLeft usedRight
    · refine (ih (d.1 :: usedLeft) (d.2 :: usedRight)).cons (fun p hp hpd => ?_) fun p hp hpd => ?_
      · exact (mem_greedyMatching hp).2.1 (hpd ▸ List.mem_cons_self)
      · exact (mem_greedyMatching hp).2.2 (hpd ▸ List.mem_cons_self)

/-- An edge that is left out has an end that was in use, or shares one with an edge that was taken before it. -/
theorem blocked_greedyMatching {le : ι × κ → ι × κ → Prop} {edges : List (ι × κ)} (hsorted : edges.Pairwise le)
    {usedLeft : List ι} {usedRight : List κ} {e : ι × κ} (he : e ∈ edges)
    (hout : e ∉ greedyMatching edges usedLeft usedRight) : (e.1 ∈ usedLeft ∨ e.2 ∈ usedRight) ∨
      ∃ p ∈ greedyMatching edges usedLeft usedRight, (p.1 = e.1 ∨ p.2 = e.2) ∧ le p e := by
  induction edges generalizing usedLeft usedRight with
  | nil => cases he
  | cons d edges ih =>
    obtain ⟨hfirst, hrest⟩ := List.pairwise_cons.1 hsorted
    unfold greedyMatching at hout ⊢
    split_ifs at hout ⊢ with hused
    · rcases List.mem_cons.1 he with rfl | he
      · exact .inl hused
      · exact ih hrest he hout
    · obtain ⟨hne, hout⟩ := List.ne_and_not_mem_of_not_mem_cons hout
      have he := (List.mem_cons.1 he).resolve_left hne
      rcases ih hrest he hout with hin | ⟨p, hp, hends, hle⟩
      · rw [List.mem_cons, List.mem_cons] at hin
        -- An end in use is one from before, or an end of `d`.
        by_cases hends : d.1 = e.1 ∨ d.2 = e.2
        · exact .inr ⟨d, List.mem_cons_self, hends, hfirst e he⟩
        · rw [not_or] at hends
          exact .inl (hin.imp (Or.resolve_left · fun h => hends.1 h.symm) (Or.resolve_left · fun h => hends.2 h.symm))
      · exact .inr ⟨p, List.mem_cons_of_mem _ hp, hends, hle⟩

/-- Of sorted edges, the greedy matching is stable. -/
theorem isStable_greedyMatching {le : ι × κ → ι × κ → Prop} {edges : List (ι × κ)} (hsorted : edges.Pairwise le) :
    IsStable (fun p q => le p q ∧ p ≠ q) {e | e ∈ edges} (greedyMatching edges [] []) := by
  intro e he hout
  rcases blocked_greedyMatching hsorted he hout with hused | ⟨p, hp, hends, hle⟩
  · exact absurd hused (by simp)
  · exact ⟨p, hp, hends, hle, fun hpe => hout (hpe ▸ hp)⟩

end Greedy

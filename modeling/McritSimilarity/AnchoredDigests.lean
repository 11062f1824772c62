import McritSimilarity.IdenticalFunctions

/-!
# Anchors as a matching of digests

`anchorsEqualDigests`: with at most one entry block on each side, `unanchored` leaves of every digest the last blocks
for which there are none on the other side, and the two entry blocks when their digests differ.  What the loop has done
with a digest depends on the blocks of that digest only, and `SlotInv` says it for each of them: the slot is what is
left of its targets after as many as there were sources.
-/

set_option autoImplicit false

namespace McritSimilarity

/-! ## Blocks by digest -/

/-- The blocks of one digest. -/
def withDigest (blocks : List BlockHash) (d : ℤ) (indices : List (Fin blocks.length)) : List (Fin blocks.length) :=
  indices.filter fun i => (blocks.get i).digest = d

/-- The blocks besides the entries, which are set aside when both sides have one. -/
def remaining (blocks others : List BlockHash) : List (Fin blocks.length) :=
  (List.finRange blocks.length).filter fun i => ¬ ((blocks.get i).entry = true ∧ ∃ b ∈ others, b.entry = true)

section Matchings

variable (source target : List BlockHash)

/-- A one-to-one matching of remaining blocks with equal digests. -/
structure MatchesDigests (pairs : List (Pair source target)) : Prop where
  matching : IsMatching pairs
  sources : ∀ p ∈ pairs, p.1 ∈ remaining source target
  targets : ∀ p ∈ pairs, p.2 ∈ remaining target source
  digest : ∀ p ∈ pairs, (source.get p.1).digest = (target.get p.2).digest

/-- The remaining blocks that are left over. -/
def leftOf (blocks others : List BlockHash) (left : List (Fin blocks.length)) : List (Fin blocks.length) :=
  left.filter (remaining blocks others).contains

/-- What `unanchored` leaves. -/
structure AnchorsEqualDigests : Prop where
  /-- The last ones of a digest, where the other side has fewer. -/
  sources : ∀ d, withDigest source d (leftOf source target (unanchored source target).1) =
    (withDigest source d (remaining source target)).drop (withDigest target d (remaining target source)).length
  targets : ∀ d, withDigest target d (leftOf target source (unanchored source target).2) =
    (withDigest target d (remaining target source)).drop (withDigest source d (remaining source target)).length
  entries : ∀ i j, (source.get i).entry = true → (target.get j).entry = true →
    (i ∈ (unanchored source target).1 ↔ (source.get i).digest ≠ (target.get j).digest) ∧
      (j ∈ (unanchored source target).2 ↔ (source.get i).digest ≠ (target.get j).digest)
  nodup : (unanchored source target).1.Nodup ∧ (unanchored source target).2.Nodup
  /-- No digest is left on both sides. -/
  disjoint : ∀ i ∈ leftOf source target (unanchored source target).1,
    ∀ j ∈ leftOf target source (unanchored source target).2, (source.get i).digest ≠ (target.get j).digest
  /-- The others are matched, and no matching has more pairs. -/
  maximum : ∃ anchors, MatchesDigests source target anchors ∧
    (anchors.map Prod.fst ++ leftOf source target (unanchored source target).1).Perm (remaining source target) ∧
      (anchors.map Prod.snd ++ leftOf target source (unanchored source target).2).Perm (remaining target source) ∧
        ∀ pairs, MatchesDigests source target pairs → pairs.length ≤ anchors.length
  swap : unanchored target source = (unanchored source target).swap

end Matchings

/-! ## The loop -/

section Loop

variable {source target : List BlockHash} {rest : List (Fin target.length)} {done : List (Fin source.length)}
  {st : Anchoring source.length target.length}

/-- The state of the loop after the source blocks `done`, digest by digest. -/
structure SlotInv (rest : List (Fin target.length)) (done : List (Fin source.length))
    (st : Anchoring source.length target.length) : Prop where
  slots : ∀ d, st.slots.collected d = (withDigest target d rest).drop (withDigest source d done).length
  left : ∀ d, withDigest source d st.sourceLeft =
    (withDigest source d done).drop (withDigest target d rest).length
  matched : ∀ d, withDigest target d st.matchedTargets =
    (withDigest target d rest).take (withDigest source d done).length
  sublist : st.sourceLeft.Sublist done

theorem withDigest_append (blocks : List BlockHash) (d : ℤ) (indices indices' : List (Fin blocks.length)) :
    withDigest blocks d (indices ++ indices') = withDigest blocks d indices ++ withDigest blocks d indices' :=
  List.filter_append _ _

theorem withDigest_singleton (blocks : List BlockHash) (d : ℤ) (i : Fin blocks.length) :
    withDigest blocks d [i] = if (blocks.get i).digest = d then [i] else [] := by
  simp only [withDigest, List.filter_cons, List.filter_nil, decide_eq_true_eq]

theorem withDigest_snoc_of_ne {d : ℤ} {blocks : List BlockHash} {i : Fin blocks.length}
    (h : (blocks.get i).digest ≠ d) (indices : List (Fin blocks.length)) :
    withDigest blocks d (indices ++ [i]) = withDigest blocks d indices := by
  rw [withDigest_append, withDigest_singleton, if_neg h, List.append_nil]

theorem withDigest_snoc {blocks : List BlockHash} (i : Fin blocks.length) (indices : List (Fin blocks.length)) :
    withDigest blocks (blocks.get i).digest (indices ++ [i]) =
      withDigest blocks (blocks.get i).digest indices ++ [i] := by
  rw [withDigest_append, withDigest_singleton, if_pos rfl]

theorem digest_of_mem_withDigest {blocks : List BlockHash} {d : ℤ} {indices : List (Fin blocks.length)}
    {i : Fin blocks.length} (h : i ∈ withDigest blocks d indices) : (blocks.get i).digest = d :=
  of_decide_eq_true (List.mem_filter.1 h).2

/-- A source block whose slot is empty is left. -/
theorem SlotInv.leave (h : SlotInv rest done st) {i : Fin source.length}
    (hslot : st.slots.collected (source.get i).digest = []) :
    SlotInv rest (done ++ [i]) { st with sourceLeft := st.sourceLeft ++ [i] } := by
  have hle : (withDigest target (source.get i).digest rest).length ≤
      (withDigest source (source.get i).digest done).length := by
    rwa [h.slots, List.drop_eq_nil_iff] at hslot
  have hle' : (withDigest target (source.get i).digest rest).length ≤
      (withDigest source (source.get i).digest (done ++ [i])).length := by
    rw [withDigest_snoc, List.length_append]
    omega
  refine ⟨fun d => ?_, fun d => ?_, fun d => ?_, h.sublist.append (List.Sublist.refl _)⟩
  · rw [h.slots d]
    by_cases hd : (source.get i).digest = d
    · subst hd
      rw [List.drop_eq_nil_of_le hle, List.drop_eq_nil_of_le hle']
    · rw [withDigest_snoc_of_ne hd]
  · by_cases hd : (source.get i).digest = d
    · subst hd
      rw [withDigest_snoc, withDigest_snoc, h.left, List.drop_append_of_le_length hle]
    · rw [withDigest_snoc_of_ne hd, withDigest_snoc_of_ne hd, h.left]
  · rw [h.matched d]
    by_cases hd : (source.get i).digest = d
    · subst hd
      rw [List.take_of_length_le hle, List.take_of_length_le hle']
    · rw [withDigest_snoc_of_ne hd]

/-- A source block takes the first target block in its slot. -/
theorem SlotInv.anchor (h : SlotInv rest done st) {i : Fin source.length} {j : Fin target.length}
    {available : List (Fin target.length)} (hslot : st.slots.collected (source.get i).digest = j :: available) :
    SlotInv rest (done ++ [i]) { st with
      slots := st.slots.put (source.get i).digest available
      matchedTargets := st.matchedTargets ++ [j] } := by
  rw [h.slots] at hslot
  have hlt : (withDigest source (source.get i).digest done).length <
      (withDigest target (source.get i).digest rest).length := by
    by_contra hle
    rw [List.drop_eq_nil_of_le (by omega)] at hslot
    cases hslot
  have hle : (withDigest source (source.get i).digest (done ++ [i])).length ≤
      (withDigest target (source.get i).digest rest).length := by
    rw [withDigest_snoc, List.length_append, List.length_singleton]
    omega
  have hfirst : (withDigest target (source.get i).digest rest)[(withDigest source (source.get i).digest done).length]? =
      some j := by
    rw [← List.head?_drop, hslot, List.head?_cons]
  have hdigest : (target.get j).digest = (source.get i).digest := digest_of_mem_withDigest (List.mem_of_getElem? hfirst)
  refine ⟨fun d => ?_, fun d => ?_, fun d => ?_, h.sublist.trans (List.sublist_append_left _ _)⟩
  · rw [OrderedMap.collected_put]
    split_ifs with hd
    · subst hd
      rw [withDigest_snoc, List.length_append, List.length_singleton, ← List.drop_drop, hslot, List.drop_one,
        List.tail_cons]
    · rw [withDigest_snoc_of_ne (Ne.symm hd), h.slots]
  · rw [h.left d]
    by_cases hd : (source.get i).digest = d
    · subst hd
      rw [List.drop_eq_nil_of_le hlt.le, List.drop_eq_nil_of_le hle]
    · rw [withDigest_snoc_of_ne hd]
  · by_cases hd : (source.get i).digest = d
    · subst hd
      have hsnoc := withDigest_snoc j st.matchedTargets
      rw [hdigest] at hsnoc
      rw [hsnoc, withDigest_snoc, h.matched, List.length_append, List.length_singleton, List.take_add_one, hfirst]
      rfl
    · rw [withDigest_snoc_of_ne (hdigest ▸ hd), withDigest_snoc_of_ne hd, h.matched]

theorem slotInv_step (h : SlotInv rest done st) (i : Fin source.length) :
    SlotInv rest (done ++ [i]) (anchorStep source target st i) := by
  unfold anchorStep
  cases hslot : st.slots.collected (source.get i).digest with
  | nil => exact h.leave hslot
  | cons j available => exact h.anchor hslot

theorem anchored_slotInv (source target : List BlockHash) :
    SlotInv (targetRest source target) (sourceRest source target) (anchored source target) :=
  anchored_induction (fun _ hslots => ⟨hslots, fun _ => List.drop_nil.symm, fun _ => rfl, List.Sublist.refl _⟩)
    fun _ _ i h => slotInv_step h i

end Loop

/-! ## What is left -/

theorem filter_notMem_take {α : Type} [DecidableEq α] {l : List α} (hl : l.Nodup) (n : ℕ) :
    l.filter (· ∉ l.take n) = l.drop n := by
  have hnil : (l.take n).filter (· ∉ l.take n) = [] := by simp
  have hself : (l.drop n).filter (· ∉ l.take n) = l.drop n := by
    rw [List.filter_eq_self]
    intro x hdrop
    simpa using fun htake : x ∈ l.take n => List.disjoint_take_drop hl le_rfl htake hdrop
  calc l.filter (· ∉ l.take n) = (l.take n ++ l.drop n).filter (· ∉ l.take n) := by rw [List.take_append_drop]
    _ = l.drop n := by rw [List.filter_append, hnil, hself, List.nil_append]

section Left

variable {source target : List BlockHash}

/-- Indices of a side in their order are determined by what they are of each digest. -/
theorem eq_of_withDigest {blocks : List BlockHash} {l l' : List (Fin blocks.length)} (hl : l.Pairwise (· < ·))
    (hl' : l'.Pairwise (· < ·)) (h : ∀ d, withDigest blocks d l = withDigest blocks d l') : l = l' := by
  have hmem : ∀ i, i ∈ l ↔ i ∈ l' := by
    intro i
    have hi := congrArg (i ∈ ·) (h (blocks.get i).digest)
    simpa [withDigest, List.mem_filter] using hi
  have hperm := (List.perm_ext_iff_of_nodup (hl.imp Fin.ne_of_lt) (hl'.imp Fin.ne_of_lt)).2 hmem
  exact hperm.eq_of_pairwise (fun i j _ _ hij hji => absurd hji (not_lt_of_gt hij)) hl hl'

theorem sourceRest_eq_remaining (hs : OneEntry source) (ht : OneEntry target) :
    sourceRest source target = remaining source target := by
  refine List.filter_congr fun i _ => ?_
  have hiff : (bothEntries source target).map Prod.fst = some i ↔
      (source.get i).entry = true ∧ ∃ b ∈ target, b.entry = true := by
    constructor
    · intro h
      obtain ⟨⟨i', j⟩, hboth, rfl⟩ := Option.map_eq_some_iff.1 h
      obtain ⟨hi, hj⟩ := bothEntries_eq_some hboth
      exact ⟨hi, target.get j, List.get_mem _ _, hj⟩
    · rintro ⟨hi, b, hb, hentry⟩
      obtain ⟨j, rfl⟩ := List.get_of_mem hb
      rw [bothEntries_of_entry hs ht hi hentry, Option.map_some]
  simp only [ne_eq, hiff]

theorem bothEntries_swap (source target : List BlockHash) :
    bothEntries target source = (bothEntries source target).map Prod.swap := by
  unfold bothEntries
  cases entryIndex source <;> cases entryIndex target <;> rfl

theorem targetRest_eq_sourceRest (source target : List BlockHash) :
    targetRest source target = sourceRest target source := by
  unfold targetRest sourceRest
  rw [bothEntries_swap source target, Option.map_map]
  rfl

theorem withDigest_targetLeftover (source target : List BlockHash) (d : ℤ) :
    withDigest target d (targetLeftover source target) = (withDigest target d (targetRest source target)).drop
      (withDigest source d (sourceRest source target)).length := by
  have hmatched := (anchored_slotInv source target).matched d
  have hnodup : (withDigest target d (targetRest source target)).Nodup := (nodup_targetRest source target).filter _
  rw [← filter_notMem_take hnodup, ← hmatched, targetLeftover, unmatched, withDigest, List.filter_comm]
  refine List.filter_congr fun j hj => ?_
  have hdigest := digest_of_mem_withDigest hj
  simp only [withDigest, List.mem_filter, hdigest, decide_true, and_true]

/-- The entries, when they are left over. -/
def leftEntries (source target : List BlockHash) : List (Pair source target) :=
  match bothEntries source target with
  | some p => if source[p.1].digest ≠ target[p.2].digest then [p] else []
  | none => []

theorem leftEntries_swap (source target : List BlockHash) :
    leftEntries target source = (leftEntries source target).map Prod.swap := by
  unfold leftEntries
  rw [bothEntries_swap source target]
  cases bothEntries source target with
  | none => rfl
  | some p =>
    simp only [Option.map_some, Prod.fst_swap, Prod.snd_swap, ne_comm]
    split_ifs <;> rfl

theorem unanchored_eq (source target : List BlockHash) : unanchored source target =
    ((anchored source target).sourceLeft ++ (leftEntries source target).map Prod.fst,
      targetLeftover source target ++ (leftEntries source target).map Prod.snd) := by
  unfold unanchored leftEntries
  cases bothEntries source target with
  | none => simp only [List.map_nil, List.append_nil]; rfl
  | some p =>
    simp only
    split_ifs
    · rfl
    · simp only [List.map_nil, List.append_nil]
      rfl

theorem pairwise_sourceRest (source target : List BlockHash) : (sourceRest source target).Pairwise (· < ·) :=
  (List.pairwise_lt_finRange _).filter _

/-- What is left of one side is what is left of it when the sides are swapped. -/
theorem sourceLeft_swap (source target : List BlockHash) :
    (anchored target source).sourceLeft = targetLeftover source target := by
  have h := anchored_slotInv target source
  refine eq_of_withDigest ((pairwise_sourceRest target source).sublist h.sublist) ?_ fun d => ?_
  · rw [targetLeftover, unmatched, targetRest_eq_sourceRest]
    exact (pairwise_sourceRest target source).filter _
  · rw [h.left, withDigest_targetLeftover, targetRest_eq_sourceRest, targetRest_eq_sourceRest]

theorem unanchored_swap (source target : List BlockHash) :
    unanchored target source = (unanchored source target).swap := by
  rw [unanchored_eq, unanchored_eq, leftEntries_swap source target, List.map_map, List.map_map, sourceLeft_swap,
    ← sourceLeft_swap target source]
  rfl

theorem mem_leftEntries {p : Pair source target} :
    p ∈ leftEntries source target ↔
      bothEntries source target = some p ∧ (source.get p.1).digest ≠ (target.get p.2).digest := by
  unfold leftEntries
  cases bothEntries source target with
  | none => simp
  | some q =>
    simp only [Option.some.injEq]
    split_ifs with hd
    · rw [List.mem_singleton]
      exact ⟨fun hp => ⟨hp.symm, hp ▸ hd⟩, fun hp => hp.1.symm⟩
    · refine ⟨fun hp => absurd hp List.not_mem_nil, ?_⟩
      rintro ⟨rfl, hne⟩
      exact absurd hne hd

/-- An entry that is set aside is not gone over. -/
theorem notMem_sourceRest {p : Pair source target} (h : bothEntries source target = some p) :
    p.1 ∉ sourceRest source target := by
  simp [sourceRest, h]

theorem leftOf_unanchored (hs : OneEntry source) (ht : OneEntry target) :
    leftOf source target (unanchored source target).1 = (anchored source target).sourceLeft := by
  have hsublist := (anchored_slotInv source target).sublist
  have hself : leftOf source target (anchored source target).sourceLeft = (anchored source target).sourceLeft := by
    refine List.filter_eq_self.2 fun i hi => List.contains_iff_mem.2 ?_
    rw [← sourceRest_eq_remaining hs ht]
    exact hsublist.subset hi
  have hnil : leftOf source target ((leftEntries source target).map Prod.fst) = [] := by
    refine List.filter_eq_nil_iff.2 fun i hi => ?_
    obtain ⟨p, hp, rfl⟩ := List.mem_map.1 hi
    rw [List.contains_iff_mem, ← sourceRest_eq_remaining hs ht]
    exact notMem_sourceRest (mem_leftEntries.1 hp).1
  rw [leftOf] at hself hnil ⊢
  rw [unanchored_eq, List.filter_append, hself, hnil, List.append_nil]

theorem nodup_unanchored (source target : List BlockHash) : (unanchored source target).1.Nodup := by
  have hrest : (sourceRest source target).Nodup := (pairwise_sourceRest source target).imp Fin.ne_of_lt
  have hsublist := (anchored_slotInv source target).sublist
  rw [unanchored_eq]
  refine (hrest.sublist hsublist).append ?_ ?_
  · unfold leftEntries
    cases bothEntries source target with
    | none => exact List.nodup_nil
    | some p =>
      simp only
      split_ifs
      · exact List.nodup_singleton _
      · exact List.nodup_nil
  · intro i hi hentry
    obtain ⟨p, hp, rfl⟩ := List.mem_map.1 hentry
    exact notMem_sourceRest (mem_leftEntries.1 hp).1 (hsublist.subset hi)

theorem mem_unanchored_entry (hs : OneEntry source) (ht : OneEntry target)
    {i : Fin source.length} {j : Fin target.length}
    (hi : (source.get i).entry = true) (hj : (target.get j).entry = true) :
    i ∈ (unanchored source target).1 ↔ (source.get i).digest ≠ (target.get j).digest := by
  have hboth := bothEntries_of_entry hs ht hi hj
  have hrest := notMem_sourceRest hboth
  have hleft : i ∉ (anchored source target).sourceLeft :=
    fun h => hrest ((anchored_slotInv source target).sublist.subset h)
  rw [unanchored_eq, List.mem_append, List.mem_map]
  constructor
  · rintro (h | ⟨⟨i', j'⟩, hp, hi'⟩)
    · exact absurd h hleft
    · obtain ⟨hp, hne⟩ := mem_leftEntries.1 hp
      obtain ⟨rfl, rfl⟩ := Prod.mk.inj (Option.some.inj (hp.symm.trans hboth))
      exact hne
  · exact fun hne => .inr ⟨(i, j), mem_leftEntries.2 ⟨hboth, hne⟩, rfl⟩

/-! ## No larger matching -/

/-- A matching uses each index at most once. -/
theorem count_map_le {α : Type} {pairs : List α} {indices : List (Fin source.length)} {f : α → Fin source.length}
    (hnodup : (pairs.map f).Nodup) (hmem : ∀ p ∈ pairs, f p ∈ indices) (d : ℤ) :
    (pairs.map fun p => (source.get (f p)).digest).count d ≤ (indices.map fun i => (source.get i).digest).count d := by
  have hsubset : pairs.map f ⊆ indices := by
    intro i hi
    obtain ⟨p, hp, rfl⟩ := List.mem_map.1 hi
    exact hmem p hp
  obtain ⟨l, hperm, hsub⟩ := List.subperm_of_subset hnodup hsubset
  have hcount := (hperm.map fun i => (source.get i).digest).count_eq d
  rw [List.map_map] at hcount
  calc (pairs.map fun p => (source.get (f p)).digest).count d =
      (l.map fun i => (source.get i).digest).count d := hcount.symm
    _ ≤ (indices.map fun i => (source.get i).digest).count d := (hsub.map _).count_le d

/-- The anchors of a digest are as many as the side with fewer of its blocks allows. -/
theorem count_anchors_le {anchors pairs : List (Pair source target)}
    (hdigest : ∀ p ∈ anchors, (source.get p.1).digest = (target.get p.2).digest)
    (hsources : (anchors.map Prod.fst ++ (anchored source target).sourceLeft).Perm (remaining source target))
    (htargets : (anchors.map Prod.snd ++ targetLeftover source target).Perm (remaining target source))
    (hpairs : MatchesDigests source target pairs) (d : ℤ) :
    (pairs.map fun p => (source.get p.1).digest).count d ≤ (anchors.map fun p => (source.get p.1).digest).count d := by
  have hsource := (hsources.map fun i => (source.get i).digest).count_eq d
  have htarget := (htargets.map fun j => (target.get j).digest).count_eq d
  rw [List.map_append, List.map_map, List.count_append] at hsource htarget
  by_cases hd : d ∈ (anchored source target).sourceLeft.map fun i => (source.get i).digest
  · have hnone : ((targetLeftover source target).map fun j => (target.get j).digest).count d = 0 := by
      refine List.count_eq_zero.2 fun hmem => ?_
      obtain ⟨i, hi, rfl⟩ := List.mem_map.1 hd
      obtain ⟨j, hj, hji⟩ := List.mem_map.1 hmem
      exact leftover_ne hi hj hji.symm
    have hle := count_map_le hpairs.matching.right hpairs.targets d
    rw [hnone, Nat.add_zero] at htarget
    rw [List.map_congr_left hpairs.digest, List.map_congr_left hdigest]
    exact hle.trans_eq htarget.symm
  · have hnone := List.count_eq_zero.2 hd
    have hle := count_map_le hpairs.matching.left hpairs.sources d
    rw [hnone, Nat.add_zero] at hsource
    exact hle.trans_eq hsource.symm

theorem exists_maximum (hs : OneEntry source) (ht : OneEntry target) : ∃ anchors, MatchesDigests source target anchors ∧
    (anchors.map Prod.fst ++ (anchored source target).sourceLeft).Perm (remaining source target) ∧
      (anchors.map Prod.snd ++ targetLeftover source target).Perm (remaining target source) ∧
        ∀ pairs, MatchesDigests source target pairs → pairs.length ≤ anchors.length := by
  obtain ⟨anchors, h⟩ := anchored_spec source target
  have hsources := h.sources
  have htargets : (anchors.map Prod.snd ++ targetLeftover source target).Perm (targetRest source target) :=
    h.perm_targets
  rw [sourceRest_eq_remaining hs ht] at hsources
  rw [targetRest_eq_sourceRest, sourceRest_eq_remaining ht hs] at htargets
  have hnodup : (remaining source target).Nodup := (List.nodup_finRange _).filter _
  have hleft := hsources.nodup_iff.2 hnodup
  refine ⟨anchors, ⟨⟨(List.nodup_append.1 hleft).1, h.nodup⟩, fun p hp => ?_, fun p hp => ?_, h.digest⟩, hsources,
    htargets, fun pairs hpairs => ?_⟩
  · exact hsources.subset (List.mem_append_left _ (List.mem_map_of_mem hp))
  · rw [← sourceRest_eq_remaining ht hs, ← targetRest_eq_sourceRest]
    exact h.within p hp
  · have hsub : (pairs.map fun p => (source.get p.1).digest).Subperm (anchors.map fun p => (source.get p.1).digest) :=
      List.subperm_ext_iff.2 fun d _ => count_anchors_le h.digest hsources htargets hpairs d
    simpa using hsub.length_le

end Left

/-- Anchoring is a maximum matching of equal digests, which leaves the last blocks of each digest, and symmetric. -/
theorem anchorsEqualDigests {source target : List BlockHash} (hs : OneEntry source) (ht : OneEntry target) :
    AnchorsEqualDigests source target := by
  have hsources := leftOf_unanchored hs ht
  have htargets : leftOf target source (unanchored source target).2 = targetLeftover source target := by
    have hswap := leftOf_unanchored ht hs
    rwa [unanchored_swap source target, sourceLeft_swap] at hswap
  refine ⟨fun d => ?_, fun d => ?_, fun i j hi hj => ⟨?_, ?_⟩, ⟨?_, ?_⟩, fun i hi j hj => ?_, ?_,
    unanchored_swap source target⟩
  · rw [hsources, (anchored_slotInv source target).left, targetRest_eq_sourceRest, sourceRest_eq_remaining hs ht,
      sourceRest_eq_remaining ht hs]
  · rw [htargets, withDigest_targetLeftover, targetRest_eq_sourceRest, sourceRest_eq_remaining hs ht,
      sourceRest_eq_remaining ht hs]
  · exact mem_unanchored_entry hs ht hi hj
  · have hentry := mem_unanchored_entry ht hs hj hi
    rwa [unanchored_swap source target, ne_comm] at hentry
  · exact nodup_unanchored source target
  · have hnodup := nodup_unanchored target source
    rwa [unanchored_swap source target] at hnodup
  · rw [hsources] at hi
    rw [htargets] at hj
    exact leftover_ne hi hj
  · rw [hsources, htargets]
    exact exists_maximum hs ht

/-! ## Blocks with a twin -/

def twinSource : List BlockHash :=
  [{ offset := 0x1000, size := 4, digest := 1, entry := true }, { offset := 0x1004, size := 4, digest := 2 },
    { offset := 0x1008, size := 4, digest := 2 }, { offset := 0x100c, size := 4, digest := 3 }]

def twinTarget : List BlockHash :=
  [{ offset := 0x2000, size := 4, digest := 2 }, { offset := 0x2004, size := 4, digest := 4, entry := true },
    { offset := 0x2008, size := 4, digest := 3 }, { offset := 0x200c, size := 4, digest := 3 }]

theorem anchorsEqualDigests_twins : AnchorsEqualDigests twinSource twinTarget :=
  anchorsEqualDigests (by unfold OneEntry; decide) (by unfold OneEntry; decide)

/-- The second twin of each side and the entries are left. -/
example : ((unanchored twinSource twinTarget).1.map Fin.val, (unanchored twinSource twinTarget).2.map Fin.val) =
    ([2, 0], [3, 1]) := by decide

end McritSimilarity

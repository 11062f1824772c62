import Mathlib.Data.List.Perm.Basic
import Mathlib.Data.List.Perm.Subperm
import McritSimilarity.Lib.Matching
import McritSimilarity.PicBlocks

/-!
# What a diff leaves unpainted

`explained_annotationBlocks`: the annotations of two functions come from a one-to-one correspondence of
blocks.  A block outside it is painted as a whole; two corresponding blocks have equal digests and no
paint, or are painted whole, or agree on their unpainted instructions in order; entry blocks
correspond to each other.  The three stages hand lists of indices to each other, and each is
described by how these lists make up all indices again: `anchored_spec`, `unanchored_spec`,
`changedPairs_spec`, `alignedPairs_spec`.
-/

set_option autoImplicit false

namespace McritSimilarity

/-! ## Explanations -/

/-- The paint of instructions that a script does not copy: changed where it replaces, and at the entry
address. -/
def runPaint (block : BlockHash) (tag : OpTag) (instructions : List InstructionHash) :
    List BlockAnnotation :=
  if tag = .equal then []
  else instructions.map fun ins =>
    ⟨block, tag = .replace || (block.entry && ins.offset = block.offset), some ins⟩

/-- What two corresponding blocks may be painted. -/
inductive PairPaint (left right : BlockHash) :
    List BlockAnnotation → List BlockAnnotation → Prop where
  | same (h : left.digest = right.digest) : PairPaint left right [] []
  | whole : PairPaint left right [⟨left, true, none⟩] [⟨right, true, none⟩]
  | aligned (runs : List (Run InstructionHash)) (hleft : left.instructions ≠ [])
      (hright : right.instructions ≠ []) (hruns_left : runs.flatMap Run.left = left.instructions)
      (hruns_right : runs.flatMap Run.right = right.instructions)
      (htags : ∀ r ∈ runs, TagOk r.tag (r.left.map InstructionHash.escaped)
        (r.right.map InstructionHash.escaped)) :
      PairPaint left right (runs.flatMap fun r => runPaint left r.tag r.left)
        (runs.flatMap fun r => runPaint right r.tag r.right)

/-- The paint of a block without a counterpart; an entry block is marked as changed. -/
def wholePaint (block : BlockHash) : BlockAnnotation := ⟨block, block.entry, none⟩

section Explains

variable (source target : List BlockHash)

/-- The pairs and their paint account for everything that is painted. -/
structure Explains (pairs : List (Pair source target))
    (paint : Pair source target → List BlockAnnotation × List BlockAnnotation)
    (out : List BlockAnnotation × List BlockAnnotation) : Prop where
  nodup_source : (pairs.map Prod.fst).Nodup
  nodup_target : (pairs.map Prod.snd).Nodup
  pair : ∀ p ∈ pairs, PairPaint (source.get p.1) (target.get p.2) (paint p).1 (paint p).2
  source_out : out.1.Perm
    ((((List.finRange source.length).filter (· ∉ pairs.map Prod.fst)).map
      fun i => wholePaint (source.get i)) ++ pairs.flatMap fun p => (paint p).1)
  target_out : out.2.Perm
    ((((List.finRange target.length).filter (· ∉ pairs.map Prod.snd)).map
      fun j => wholePaint (target.get j)) ++ pairs.flatMap fun p => (paint p).2)
  entries : ∀ (i : Fin source.length) (j : Fin target.length),
    (source.get i).entry = true → (target.get j).entry = true → (i, j) ∈ pairs

end Explains

/-- A side has at most one entry block. -/
def OneEntry (blocks : List BlockHash) : Prop :=
  ∀ i j : Fin blocks.length, (blocks.get i).entry = true → (blocks.get j).entry = true → i = j

/-! ## Anchoring -/

section Anchors

variable {source target : List BlockHash}

/-- The state of the loop after the source blocks `done`, with the pairs it has anchored. -/
structure AnchorInv (rest : List (Fin target.length)) (anchors : List (Pair source target))
    (done : List (Fin source.length)) (st : Anchoring source.length target.length) : Prop where
  targets : st.matchedTargets = anchors.map Prod.snd
  sources : (anchors.map Prod.fst ++ st.sourceLeft).Perm done
  digest : ∀ p ∈ anchors, (source.get p.1).digest = (target.get p.2).digest
  nodup : (anchors.map Prod.snd).Nodup
  within : ∀ p ∈ anchors, p.2 ∈ rest
  slots : ∀ d, ∀ j ∈ st.slots.collected d, (target.get j).digest = d ∧ j ∈ rest ∧ j ∉ anchors.map Prod.snd
  nodup_slot : ∀ d, (st.slots.collected d).Nodup

theorem anchorInv_step {rest : List (Fin target.length)} {anchors : List (Pair source target)}
    {done : List (Fin source.length)} {st : Anchoring source.length target.length}
    (h : AnchorInv rest anchors done st) (i : Fin source.length) :
    ∃ anchors', AnchorInv rest anchors' (done ++ [i]) (anchorStep source target st i) := by
  unfold anchorStep
  cases hslot : st.slots.collected (source.get i).digest with
  | nil =>
    refine ⟨anchors, h.targets, ?_, h.digest, h.nodup, h.within, h.slots, h.nodup_slot⟩
    rw [← List.append_assoc]
    exact h.sources.append_right [i]
  | cons j available =>
    have hmem : j ∈ st.slots.collected (source.get i).digest := by
      rw [hslot]
      exact List.mem_cons_self
    have hnodup : (j :: available).Nodup := by
      rw [← hslot]
      exact h.nodup_slot (source.get i).digest
    obtain ⟨hdigest, hrest, hfree⟩ := h.slots _ j hmem
    have htargets : (anchors ++ [(i, j)]).map Prod.snd = anchors.map Prod.snd ++ [j] := by simp
    refine ⟨anchors ++ [(i, j)], ?_, ?_, ?_, ?_, ?_, ?_, ?_⟩
    · rw [htargets, h.targets]
    · have hmove : ([i] ++ st.sourceLeft).Perm (st.sourceLeft ++ [i]) := List.perm_append_comm
      have hdone := h.sources.append_right [i]
      rw [List.append_assoc] at hdone
      rw [List.map_append, List.append_assoc]
      exact (hmove.append_left _).trans hdone
    · intro p hp
      rcases List.mem_append.1 hp with hp | hp
      · exact h.digest p hp
      · obtain rfl := List.mem_singleton.1 hp
        exact hdigest.symm
    · rw [htargets]
      refine h.nodup.append (List.nodup_singleton j) ?_
      rwa [List.disjoint_singleton]
    · intro p hp
      rcases List.mem_append.1 hp with hp | hp
      · exact h.within p hp
      · obtain rfl := List.mem_singleton.1 hp
        exact hrest
    · intro d k hk
      rw [OrderedMap.collected_put] at hk
      rw [htargets, List.mem_append, List.mem_singleton, not_or]
      split_ifs at hk with hd
      · subst hd
        have hk' : k ∈ st.slots.collected (source.get i).digest := by
          rw [hslot]
          exact List.mem_cons_of_mem _ hk
        obtain ⟨hkd, hkrest, hkfree⟩ := h.slots _ k hk'
        refine ⟨hkd, hkrest, hkfree, ?_⟩
        rintro rfl
        exact (List.nodup_cons.1 hnodup).1 hk
      · obtain ⟨hkd, hkrest, hkfree⟩ := h.slots d k hk
        refine ⟨hkd, hkrest, hkfree, ?_⟩
        rintro rfl
        exact hd (hkd.symm.trans hdigest)
    · intro d
      rw [OrderedMap.collected_put]
      split_ifs
      · exact (List.nodup_cons.1 hnodup).2
      · exact h.nodup_slot d

/-- The rule of the loop over the source blocks: its invariant holds with the slots of all targets, and a step keeps
it. -/
theorem anchored_induction {motive : List (Fin source.length) → Anchoring source.length target.length → Prop}
    (hstart : ∀ slots : Slots target.length, (∀ d, slots.collected d =
      (targetRest source target).filter fun j => (target.get j).digest = d) → motive [] ⟨slots, [], []⟩)
    (hstep : ∀ done st i, motive done st → motive (done ++ [i]) (anchorStep source target st i)) :
    motive (sourceRest source target) (anchored source target) := by
  have hloop : ∀ (todo done : List (Fin source.length)) (st : Anchoring source.length target.length), motive done st →
      motive (done ++ todo) (todo.foldl (anchorStep source target) st) := by
    intro todo
    induction todo with
    | nil => exact fun done st h => by rwa [List.append_nil]
    | cons i todo ih =>
      intro done st h
      rw [List.append_cons]
      exact ih _ _ (hstep done st i h)
  refine hloop (sourceRest source target) [] _ (hstart _ fun d => ?_)
  exact OrderedMap.collected_foldl_push (fun j : Fin target.length => (target.get j).digest) _ .empty d

variable (source target)

theorem nodup_targetRest : (targetRest source target).Nodup := (List.nodup_finRange _).filter _

/-- The anchors match equal digests one to one and leave the other blocks. -/
theorem anchored_spec :
    ∃ anchors : List (Pair source target),
      AnchorInv (targetRest source target) anchors (sourceRest source target)
        (anchored source target) := by
  refine anchored_induction (motive := fun done st => ∃ anchors, AnchorInv (targetRest source target) anchors done st)
    (fun slots hslots => ⟨[], rfl, List.Perm.refl _, by simp, List.nodup_nil, by simp, ?_, ?_⟩)
    fun done st i ⟨anchors, h⟩ => anchorInv_step h i
  · intro d j hj
    rw [hslots, List.mem_filter, decide_eq_true_eq] at hj
    exact ⟨hj.2, hj.1, List.not_mem_nil⟩
  · intro d
    rw [hslots]
    exact (nodup_targetRest source target).filter _

/-- The matched targets and the others are all of them. -/
theorem AnchorInv.perm_targets {source target : List BlockHash} {anchors : List (Pair source target)}
    (h : AnchorInv (targetRest source target) anchors (sourceRest source target)
      (anchored source target)) :
    (anchors.map Prod.snd ++ (targetRest source target).filter
      (· ∉ (anchored source target).matchedTargets)).Perm (targetRest source target) := by
  rw [h.targets]
  refine List.perm_append_filter_notMem (nodup_targetRest source target) h.nodup fun j hj => ?_
  obtain ⟨p, hp, rfl⟩ := List.mem_map.1 hj
  exact h.within p hp

theorem entryIndex_eq_some {blocks : List BlockHash} {i : Fin blocks.length}
    (h : entryIndex blocks = some i) : (blocks.get i).entry = true := by
  have hfound := List.find?_some h
  exact hfound

theorem bothEntries_eq_some {source target : List BlockHash} {i : Fin source.length}
    {j : Fin target.length} (h : bothEntries source target = some (i, j)) :
    (source.get i).entry = true ∧ (target.get j).entry = true := by
  unfold bothEntries at h
  split at h
  · next i' j' hi hj =>
    obtain ⟨rfl, rfl⟩ := Prod.mk.inj (Option.some.inj h)
    exact ⟨entryIndex_eq_some hi, entryIndex_eq_some hj⟩
  · cases h

/-- Two entry blocks are set aside when both sides have one. -/
theorem bothEntries_of_entry {source target : List BlockHash} (hs : OneEntry source)
    (ht : OneEntry target) {i : Fin source.length} {j : Fin target.length}
    (hi : (source.get i).entry = true) (hj : (target.get j).entry = true) :
    bothEntries source target = some (i, j) := by
  have hentry : ∀ {blocks : List BlockHash}, OneEntry blocks → ∀ {k : Fin blocks.length},
      (blocks.get k).entry = true → entryIndex blocks = some k := by
    intro blocks hone k hk
    cases hfind : entryIndex blocks with
    | none =>
      have hnone := List.find?_eq_none.1 hfind k (List.mem_finRange k)
      exact absurd hk hnone
    | some k' => rw [hone k' k (entryIndex_eq_some hfind) hk]
  unfold bothEntries
  rw [hentry hs hi, hentry ht hj]

theorem perm_filter_ne {n : ℕ} (k : Fin n) :
    ((List.finRange n).filter (fun i => some k ≠ some i) ++ [k]).Perm (List.finRange n) := by
  refine (List.perm_ext_iff_of_nodup ?_ (List.nodup_finRange n)).2 fun i => ?_
  · refine ((List.nodup_finRange n).filter _).append (List.nodup_singleton k) ?_
    rw [List.disjoint_singleton]
    simp
  · by_cases hik : i = k
    · simp [hik]
    · simp [hik, Ne.symm hik]

theorem rest_of_none {source target : List BlockHash} (h : bothEntries source target = none) :
    sourceRest source target = List.finRange source.length ∧
      targetRest source target = List.finRange target.length := by
  constructor
  · simp [sourceRest, h]
  · simp [targetRest, h]

theorem perm_rest {source target : List BlockHash} {p : Pair source target}
    (h : bothEntries source target = some p) :
    (sourceRest source target ++ [p.1]).Perm (List.finRange source.length) ∧
      (targetRest source target ++ [p.2]).Perm (List.finRange target.length) := by
  simp only [sourceRest, targetRest, h, Option.map_some]
  exact ⟨perm_filter_ne p.1, perm_filter_ne p.2⟩

/-- What `_unanchored` leaves, with the anchored pairs, is all blocks; entry blocks are anchored to
each other or both left over. -/
theorem unanchored_spec :
    ∃ anchors : List (Pair source target),
      (∀ p ∈ anchors, (source.get p.1).digest = (target.get p.2).digest) ∧
      (anchors.map Prod.fst ++ (unanchored source target).1).Perm (List.finRange source.length) ∧
      (anchors.map Prod.snd ++ (unanchored source target).2).Perm (List.finRange target.length) ∧
      ∀ p, bothEntries source target = some p →
        p ∈ anchors ∨ p.1 ∈ (unanchored source target).1 ∧ p.2 ∈ (unanchored source target).2 := by
  obtain ⟨anchors, h⟩ := anchored_spec source target
  have htargets := h.perm_targets
  have hsources := h.sources
  unfold unanchored
  cases hentries : bothEntries source target with
  | none =>
    obtain ⟨hs, ht⟩ := rest_of_none hentries
    rw [hs] at hsources
    rw [ht] at htargets
    refine ⟨anchors, h.digest, hsources, ?_, nofun⟩
    simp only [ht]
    exact htargets
  | some p =>
    obtain ⟨i, j⟩ := p
    obtain ⟨hs, ht⟩ := perm_rest hentries
    have hsources' := (hsources.append_right [i]).trans hs
    have htargets' := (htargets.append_right [j]).trans ht
    rw [List.append_assoc] at hsources' htargets'
    by_cases hdigest : source[i].digest = target[j].digest
    · simp only [hdigest, ne_eq, not_true_eq_false, if_false]
      refine ⟨anchors ++ [(i, j)], ?_, ?_, ?_, ?_⟩
      · intro p hp
        rcases List.mem_append.1 hp with hp | hp
        · exact h.digest p hp
        · obtain rfl := List.mem_singleton.1 hp
          exact hdigest
      · rw [List.map_append, List.append_assoc]
        exact (List.perm_append_comm.append_left _).trans hsources'
      · rw [List.map_append, List.append_assoc]
        exact (List.perm_append_comm.append_left _).trans htargets'
      · intro p hp
        obtain rfl := Option.some.inj hp
        exact .inl (List.mem_append_right _ (List.mem_singleton_self _))
    · simp only [hdigest, ne_eq, not_false_eq_true, if_true]
      refine ⟨anchors, h.digest, hsources', htargets', fun p hp => ?_⟩
      obtain rfl := Option.some.inj hp
      exact .inr ⟨List.mem_append_right _ (List.mem_singleton_self _),
        List.mem_append_right _ (List.mem_singleton_self _)⟩

end Anchors

/-! ## Pairing the leftovers -/

section Pairing

variable (sm : SequenceMatcher) {source target : List BlockHash}

theorem map_fst_zip_sublist {α β : Type} (xs : List α) (ys : List β) :
    ((xs.zip ys).map Prod.fst).Sublist xs := by
  induction xs generalizing ys with
  | nil => exact List.Sublist.slnil
  | cons x xs ih =>
    cases ys with
    | nil => exact List.nil_sublist _
    | cons y ys => exact (ih ys).cons_cons x

theorem map_snd_zip_sublist {α β : Type} (xs : List α) (ys : List β) :
    ((xs.zip ys).map Prod.snd).Sublist ys := by
  induction xs generalizing ys with
  | nil => exact List.nil_sublist _
  | cons x xs ih =>
    cases ys with
    | nil => exact List.Sublist.slnil
    | cons y ys => exact (ih ys).cons_cons y

/-- The pairs use each index of the two lists at most once. -/
structure OneToOne (sourceLeft : List (Fin source.length)) (targetLeft : List (Fin target.length))
    (pairs : List (Pair source target)) : Prop where
  nodup_source : (pairs.map Prod.fst).Nodup
  nodup_target : (pairs.map Prod.snd).Nodup
  within : ∀ p ∈ pairs, p.1 ∈ sourceLeft ∧ p.2 ∈ targetLeft

theorem greedyPairs_eq (scored : List (ℚ × Pair source target)) (usedSource : List (Fin source.length))
    (usedTarget : List (Fin target.length)) : greedyPairs source target scored usedSource usedTarget =
      greedyMatching (scored.map Prod.snd) usedSource usedTarget := by
  induction scored generalizing usedSource usedTarget with
  | nil => rfl
  | cons entry scored ih =>
    obtain ⟨ratio, i, j⟩ := entry
    rw [List.map_cons, greedyPairs, greedyMatching, ih, ih]

/-- The scored pairs are the similar ones, each with its ratio. -/
theorem mem_scoredPairs {sourceLeft : List (Fin source.length)} {targetLeft : List (Fin target.length)}
    {entry : ℚ × Pair source target} : entry ∈ scoredPairs sm source target sourceLeft targetLeft ↔
      (entry.2.1 ∈ sourceLeft ∧ entry.2.2 ∈ targetLeft ∧ similar sm source target entry.2 = true) ∧
        entry.1 = pairRatio sm source target entry.2 := by
  unfold scoredPairs
  rw [List.mem_insertionSort, List.mem_flatMap]
  constructor
  · rintro ⟨j, hj, hentry⟩
    obtain ⟨i, hi, rfl⟩ := List.mem_map.1 hentry
    obtain ⟨hsource, hsimilar⟩ := List.mem_filter.1 hi
    exact ⟨⟨hsource, hj, hsimilar⟩, rfl⟩
  · rintro ⟨⟨hsource, htarget, hsimilar⟩, hratio⟩
    exact ⟨entry.2.2, htarget, List.mem_map.2 ⟨_, List.mem_filter.2 ⟨hsource, hsimilar⟩, Prod.ext hratio.symm rfl⟩⟩

theorem changedPairs_spec {sourceLeft : List (Fin source.length)}
    {targetLeft : List (Fin target.length)} (hs : sourceLeft.Nodup) (ht : targetLeft.Nodup) :
    OneToOne sourceLeft targetLeft (changedPairs sm source target sourceLeft targetLeft) := by
  unfold changedPairs
  split_ifs
  · exact ⟨List.nodup_nil, List.nodup_nil, by simp⟩
  · have hsub := List.filter_sublist (p := similar sm source target) (l := sourceLeft.zip targetLeft)
    refine ⟨?_, ?_, fun p hp => ?_⟩
    · exact hs.sublist ((hsub.map Prod.fst).trans (map_fst_zip_sublist _ _))
    · exact ht.sublist ((hsub.map Prod.snd).trans (map_snd_zip_sublist _ _))
    · exact List.of_mem_zip (List.mem_filter.1 hp).1
  · rw [greedyPairs_eq]
    obtain ⟨hfst, hsnd⟩ := isMatching_greedyMatching
      ((scoredPairs sm source target sourceLeft targetLeft).map Prod.snd) [] []
    refine ⟨hfst, hsnd, fun p hp => ?_⟩
    obtain ⟨entry, hentry, rfl⟩ := List.mem_map.1 (mem_greedyMatching hp).1
    obtain ⟨⟨hsource, htarget, -⟩, -⟩ := (mem_scoredPairs sm).1 hentry
    exact ⟨hsource, htarget⟩

theorem leftoverEntries_eq_some {left : List (Fin source.length) × List (Fin target.length)}
    {p : Pair source target} (h : leftoverEntries source target left = some p) :
    p.1 ∈ left.1 ∧ p.2 ∈ left.2 := by
  unfold leftoverEntries at h
  split at h
  · next i j hi hj =>
    obtain rfl := Option.some.inj h
    exact ⟨List.mem_of_find?_eq_some hi, List.mem_of_find?_eq_some hj⟩
  · cases h

/-- Leftover entry blocks are paired with each other. -/
theorem leftoverEntries_of_entry (hs : OneEntry source) (ht : OneEntry target)
    {left : List (Fin source.length) × List (Fin target.length)} {i : Fin source.length}
    {j : Fin target.length} (hi : (source.get i).entry = true) (hj : (target.get j).entry = true)
    (hli : i ∈ left.1) (hlj : j ∈ left.2) : leftoverEntries source target left = some (i, j) := by
  have hfind : ∀ {blocks : List BlockHash}, OneEntry blocks → ∀ {indices : List (Fin blocks.length)}
      {k : Fin blocks.length}, blocks[k].entry = true → k ∈ indices →
        indices.find? (fun k => blocks[k].entry) = some k := by
    intro blocks hone indices k hk hmem
    cases hfound : indices.find? fun k => blocks[k].entry with
    | none => exact absurd hk (List.find?_eq_none.1 hfound k hmem)
    | some k' =>
      have hentry := List.find?_some hfound
      rw [hone k' k hentry hk]
  unfold leftoverEntries
  rw [hfind hs hi hli, hfind ht hj hlj]

theorem alignedPairs_spec {left : List (Fin source.length) × List (Fin target.length)}
    (hs : left.1.Nodup) (ht : left.2.Nodup) :
    OneToOne left.1 left.2 (alignedPairs sm source target left) ∧
      ∀ p, leftoverEntries source target left = some p → p ∈ alignedPairs sm source target left := by
  unfold alignedPairs
  cases hentries : leftoverEntries source target left with
  | none => exact ⟨changedPairs_spec sm hs ht, nofun⟩
  | some p =>
    obtain ⟨i, j⟩ := p
    obtain ⟨hi, hj⟩ := leftoverEntries_eq_some hentries
    have h := changedPairs_spec sm (hs.filter (· ≠ i)) (ht.filter (· ≠ j))
    refine ⟨⟨?_, ?_, fun p hp => ?_⟩, fun p hp => ?_⟩
    · rw [List.map_cons, List.nodup_cons]
      refine ⟨fun hmem => ?_, h.nodup_source⟩
      obtain ⟨p, hp, rfl⟩ := List.mem_map.1 hmem
      exact of_decide_eq_true (List.mem_filter.1 (h.within p hp).1).2 rfl
    · rw [List.map_cons, List.nodup_cons]
      refine ⟨fun hmem => ?_, h.nodup_target⟩
      obtain ⟨p, hp, rfl⟩ := List.mem_map.1 hmem
      exact of_decide_eq_true (List.mem_filter.1 (h.within p hp).2).2 rfl
    · rcases List.mem_cons.1 hp with rfl | hp
      · exact ⟨hi, hj⟩
      · exact ⟨(List.mem_filter.1 (h.within p hp).1).1, (List.mem_filter.1 (h.within p hp).2).1⟩
    · obtain rfl := Option.some.inj hp
      exact List.mem_cons_self

end Pairing

/-! ## Painting a pair -/

theorem entryChanged_changed (block : BlockHash) (ins : Option InstructionHash) :
    entryChanged ⟨block, true, ins⟩ = ⟨block, true, ins⟩ := by
  unfold entryChanged
  split_ifs <;> rfl

theorem entryChanged_oneSided (block : BlockHash) : entryChanged (oneSided block) = wholePaint block := by
  unfold entryChanged oneSided atEntry wholePaint
  cases block.entry <;> simp

theorem entryChanged_unchanged (block : BlockHash) (ins : InstructionHash) :
    entryChanged ⟨block, false, some ins⟩ =
      ⟨block, block.entry && ins.offset = block.offset, some ins⟩ := by
  unfold entryChanged atEntry
  cases block.entry with
  | false => simp
  | true => by_cases h : ins.offset = block.offset <;> simp [h]

theorem map_entryChanged_paintRun (block : BlockHash) (tag : OpTag)
    (instructions : List InstructionHash) :
    (paintRun block tag instructions).map entryChanged = runPaint block tag instructions := by
  cases tag with
  | equal => rfl
  | replace =>
    simp only [paintRun, runPaint, List.map_map]
    refine List.map_congr_left fun ins _ => ?_
    exact entryChanged_changed block (some ins)
  | _ =>
    simp only [paintRun, runPaint, List.map_map]
    refine List.map_congr_left fun ins _ => ?_
    exact entryChanged_unchanged block ins

/-- The paint of a pair, from the opcodes of its instructions. -/
theorem pairPaint_instructionDiff (sm : SequenceMatcher) (left right : BlockHash) :
    PairPaint left right ((instructionDiff sm left right).1.map entryChanged)
      ((instructionDiff sm left right).2.map entryChanged) := by
  unfold instructionDiff
  split_ifs with hempty
  · simp only [List.map_cons, List.map_nil, entryChanged_changed]
    exact .whole
  · rw [not_or] at hempty
    have hvalid := sm.valid (left.instructions.map InstructionHash.escaped)
      (right.instructions.map InstructionHash.escaped)
    have h : PairPaint left right _ _ := .aligned
      (runsOf left.instructions right.instructions (sm.getOpcodes
        (left.instructions.map InstructionHash.escaped)
        (right.instructions.map InstructionHash.escaped)))
      hempty.1 hempty.2 hvalid.flatMap_left hvalid.flatMap_right hvalid.runOk
    simpa only [runsOf, List.flatMap_map, List.map_flatMap, map_entryChanged_paintRun] using h

/-! ## The whole diff -/

section Split

variable {n : ℕ} {matched left aligned : List (Fin n)}

theorem nodup_left (h : (matched ++ left).Perm (List.finRange n)) : left.Nodup :=
  ((h.nodup_iff.2 (List.nodup_finRange n)).of_append_right)

theorem notMem_matched (h : (matched ++ left).Perm (List.finRange n)) {i : Fin n} (hi : i ∈ left) :
    i ∉ matched := fun hm =>
  List.disjoint_of_nodup_append (h.nodup_iff.2 (List.nodup_finRange n)) hm hi

theorem nodup_matched_append (h : (matched ++ left).Perm (List.finRange n)) (ha : aligned.Nodup)
    (hsub : ∀ i ∈ aligned, i ∈ left) : (matched ++ aligned).Nodup :=
  ((h.nodup_iff.2 (List.nodup_finRange n)).of_append_left).append ha fun i hm hi =>
    notMem_matched h (hsub i hi) hm

/-- The leftovers that are not aligned are the indices that nothing is paired with. -/
theorem perm_unpaired (h : (matched ++ left).Perm (List.finRange n)) :
    (left.filter (· ∉ aligned)).Perm ((List.finRange n).filter (· ∉ matched ++ aligned)) := by
  refine (List.perm_ext_iff_of_nodup ((nodup_left h).filter _)
    ((List.nodup_finRange n).filter _)).2 fun i => ?_
  have hall : i ∈ matched ++ left := h.mem_iff.2 (List.mem_finRange i)
  have hleft : i ∈ left ↔ i ∉ matched :=
    ⟨notMem_matched h, fun hm => (List.mem_append.1 hall).resolve_left hm⟩
  simp only [List.mem_filter, decide_eq_true_eq, List.mem_finRange, true_and, List.mem_append,
    not_or, hleft]

end Split

section Whole

variable (sm : SequenceMatcher) {source target : List BlockHash}

/-- The paint of a pair: none for an anchored one. -/
def pairPaint (anchors : List (Pair source target)) (p : Pair source target) :
    List BlockAnnotation × List BlockAnnotation :=
  if p ∈ anchors then ([], [])
  else ((pairDiff sm source target p).1.map entryChanged,
    (pairDiff sm source target p).2.map entryChanged)

theorem flatMap_pairPaint_anchors (anchors : List (Pair source target)) :
    (anchors.flatMap fun p => (pairPaint sm anchors p).1) = [] ∧
      (anchors.flatMap fun p => (pairPaint sm anchors p).2) = [] := by
  constructor <;> rw [List.flatMap_eq_nil_iff] <;> intro p hp <;> rw [pairPaint, if_pos hp]

/-- One side of the diff after `_entry_changed`. -/
theorem map_entryChanged_side {ι π : Type} (block : ι → BlockHash) (rest : List ι) {aligned : List π}
    {diff paint : π → List BlockAnnotation}
    (h : ∀ p ∈ aligned, paint p = (diff p).map entryChanged) :
    (rest.map (fun i => oneSided (block i)) ++ aligned.flatMap diff).map entryChanged =
      rest.map (fun i => wholePaint (block i)) ++ aligned.flatMap paint := by
  have hrest : (rest.map fun i => oneSided (block i)).map entryChanged =
      rest.map fun i => wholePaint (block i) := by
    rw [List.map_map]
    exact List.map_congr_left fun i _ => entryChanged_oneSided (block i)
  have haligned : (aligned.flatMap diff).map entryChanged = aligned.flatMap paint := by
    rw [List.map_flatMap]
    exact (List.flatMap_congr h).symm
  rw [List.map_append, hrest, haligned]

/-- Entry blocks correspond and everything painted comes from a pair or a block outside the pairs. -/
theorem exists_explains (hs : OneEntry source) (ht : OneEntry target) :
    ∃ pairs paint, Explains source target pairs paint (annotations sm source target) := by
  obtain ⟨anchors, hdigest, hsplit, hsplit', hentries⟩ := unanchored_spec source target
  obtain ⟨haligned, hfirst⟩ := alignedPairs_spec sm (nodup_left hsplit) (nodup_left hsplit')
  let left := unanchored source target
  let aligned := alignedPairs sm source target left
  have hapart : ∀ p ∈ aligned, p ∉ anchors := fun p hp hanchor =>
    notMem_matched hsplit (haligned.within p hp).1 (List.mem_map_of_mem hanchor)
  have hpaint : ∀ p ∈ aligned,
      (pairPaint sm anchors p).1 = (pairDiff sm source target p).1.map entryChanged ∧
        (pairPaint sm anchors p).2 = (pairDiff sm source target p).2.map entryChanged := by
    intro p hp
    rw [pairPaint, if_neg (hapart p hp)]
    exact ⟨rfl, rfl⟩
  refine ⟨anchors ++ aligned, pairPaint sm anchors, ?_, ?_, ?_, ?_, ?_, ?_⟩
  · rw [List.map_append]
    refine nodup_matched_append hsplit haligned.nodup_source fun i hi => ?_
    obtain ⟨p, hp, rfl⟩ := List.mem_map.1 hi
    exact (haligned.within p hp).1
  · rw [List.map_append]
    refine nodup_matched_append hsplit' haligned.nodup_target fun j hj => ?_
    obtain ⟨p, hp, rfl⟩ := List.mem_map.1 hj
    exact (haligned.within p hp).2
  · intro p hp
    rcases List.mem_append.1 hp with hp | hp
    · rw [pairPaint, if_pos hp]
      exact .same (hdigest p hp)
    · rw [pairPaint, if_neg (hapart p hp)]
      exact pairPaint_instructionDiff sm _ _
  · rw [List.flatMap_append, (flatMap_pairPaint_anchors sm anchors).1, List.nil_append,
      List.map_append, annotations, map_entryChanged_side _ _ fun p hp => (hpaint p hp).1]
    exact ((perm_unpaired hsplit).map _).append_right _
  · rw [List.flatMap_append, (flatMap_pairPaint_anchors sm anchors).2, List.nil_append,
      List.map_append, annotations, map_entryChanged_side _ _ fun p hp => (hpaint p hp).2]
    exact ((perm_unpaired hsplit').map _).append_right _
  · intro i j hi hj
    rcases hentries (i, j) (bothEntries_of_entry hs ht hi hj) with h | ⟨hli, hlj⟩
    · exact List.mem_append_left _ h
    · exact List.mem_append_right _ (hfirst _ (leftoverEntries_of_entry hs ht hi hj hli hlj))

/-- What the diff leaves unpainted is common to both functions. -/
theorem explained_annotationBlocks (hsource : source ≠ []) (htarget : target ≠ [])
    (hs : OneEntry source) (ht : OneEntry target) :
    ∃ pairs paint, Explains source target pairs paint (annotationBlocks sm source target) := by
  have hout : annotationBlocks sm source target = annotations sm source target :=
    if_neg (not_or.2 ⟨hsource, htarget⟩)
  rw [hout]
  exact exists_explains sm hs ht

end Whole

/-! ## Two functions that differ in their entry block -/

/-- The opcodes of two lists that are equal or have nothing in common. -/
def coarseOpcodes (a b : List String) : List Opcode :=
  if a = [] ∧ b = [] then []
  else if a = b then [⟨.equal, 0, a.length, 0, b.length⟩]
  else if a = [] then [⟨.insert, 0, 0, 0, b.length⟩]
  else if b = [] then [⟨.delete, 0, a.length, 0, 0⟩]
  else [⟨.replace, 0, a.length, 0, b.length⟩]

theorem slice_zero_length {α : Type} (xs : List α) : slice xs 0 xs.length = xs := by
  simp [slice]

theorem validScript_single {a b : List String} {tag : OpTag} (h : TagOk tag a b) :
    ValidScript a b 0 0 [⟨tag, 0, a.length, 0, b.length⟩] := by
  let op : Opcode := ⟨tag, 0, a.length, 0, b.length⟩
  have hi : op.i1 ≤ op.i2 ∧ op.i2 ≤ a.length := ⟨Nat.zero_le _, le_rfl⟩
  have hj : op.j1 ≤ op.j2 ∧ op.j2 ≤ b.length := ⟨Nat.zero_le _, le_rfl⟩
  have htag : TagOk op.tag (slice a op.i1 op.i2) (slice b op.j1 op.j2) := by
    simpa only [op, slice_zero_length] using h
  exact .cons hi hj htag .nil

theorem valid_coarseOpcodes (a b : List String) : ValidScript a b 0 0 (coarseOpcodes a b) := by
  unfold coarseOpcodes
  split_ifs with hnil hab ha hb
  · obtain ⟨rfl, rfl⟩ := hnil
    exact .nil
  · exact validScript_single hab
  · subst ha
    exact validScript_single (a := []) rfl
  · subst hb
    exact validScript_single (b := []) rfl
  · exact validScript_single ⟨ha, hb⟩

def coarseMatcher : SequenceMatcher where
  realQuickRatio := fun _ _ => 0
  quickRatio := fun _ _ => 0
  ratio := fun _ _ => 0
  getOpcodes := coarseOpcodes
  valid := valid_coarseOpcodes

/-- Two functions with a common block and entry blocks that differ. -/
def exampleSource : List BlockHash :=
  [⟨0, 1, 7, "a", [⟨0, 1, "a"⟩], true⟩, ⟨1, 1, 9, "c", [⟨1, 1, "c"⟩], false⟩]

def exampleTarget : List BlockHash :=
  [⟨4, 1, 8, "b", [⟨4, 1, "b"⟩], true⟩, ⟨5, 1, 9, "c", [⟨5, 1, "c"⟩], false⟩]

theorem explained_annotationBlocks_example :
    ∃ pairs paint, Explains exampleSource exampleTarget pairs paint
      (annotationBlocks coarseMatcher exampleSource exampleTarget) :=
  explained_annotationBlocks coarseMatcher (by decide) (by decide) (by unfold OneEntry; decide)
    (by unfold OneEntry; decide)

end McritSimilarity
